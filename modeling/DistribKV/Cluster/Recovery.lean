import DistribKV.Cluster.Permanence
import DistribKV.Raft.Backtracking

/-!
# What a campaign can bring about

Safety says what never goes wrong; this module says that the cluster is never beyond
repair.  From every reachable state, a node that campaigns in the newest term with a
log that is up to date for a majority can be elected, have a command committed, and
bring every other node to its own log, committed, however far the logs have drifted
apart.  It takes no timeout, no restart and no other client: the node and those that
answer it act, messages arrive, and storage works.
-/

namespace DistribKV

open Consensus Raft

/-! ## Voters -/

/-- A node in a lower term gives its vote to a candidate whose log is up to date. -/
theorem Raft.requestVote_grants {r : Raft} {req : RequestVoteRequest}
    (higher : r.currentTerm < req.term) (upToDate : r.logOk req = true) :
    ∃ r', r.requestVote req {} = (r', .ok ⟨req.term, true⟩) ∧ r'.currentTerm = req.term ∧
      r'.log = r.log ∧ r'.logBase = r.logBase := by
  have yields := Yields.adoptTerm r req.term
  have term : (r.adoptTerm req.term).currentTerm = req.term := by simp [higher.le]
  have free : (r.adoptTerm req.term).votedFor = -1 := (yields.higher (higher.trans_eq term.symm)).1
  have sameLog : (r.adoptTerm req.term).logOk req = true := by
    simpa only [logOk, adoptTerm_getLastLogInfo] using upToDate
  refine ⟨{ saved (r.adoptTerm req.term) with
    votedFor := req.candidateId }.resetElectionTimerLocked, ?_, term, yields.log, yields.logBase⟩
  rw [requestVote, if_neg (Nat.lt_asymm higher)]
  simp only [sameLog, free, true_or, and_self, if_true, persist]
  exact congrArg (fun t => (_, Except.ok (RequestVoteResponse.mk t true))) term

/-! ## Leaders -/

/-- What the last index takes to be committed is committed by `updateCommitIndex`, once
every peer has it. -/
theorem Raft.updateCommitIndex_whole {r : Raft} {entry : LogEntry} (leads : r.state = .leader)
    (uncompacted : r.logBase = 0) (last : r.log.getLast? = some entry)
    (ownTerm : entry.term = r.currentTerm)
    (everywhere : ∀ peer ∈ r.peers, r.log.length ≤ peer.matchIndex) :
    r.log.length ≤ r.updateCommitIndex.commitIndex := by
  obtain ⟨n, length⟩ : ∃ n, r.log.length = n + 1 :=
    Nat.exists_eq_add_one.mpr (List.length_pos_of_ne_nil (by rintro empty; simp [empty] at last))
  rw [updateCommitIndex, if_neg (not_not.mpr leads), uncompacted, length, Nat.add_zero, scanCommit]
  split
  next above =>
    have found : entryAt r.log (((n + 1 : Nat) : Int) - r.logBase - 1) = some entry := by
      rw [uncompacted, show ((n + 1 : Nat) : Int) - ((0 : Nat) : Int) - 1 = (n : Nat) by omega,
        entryAt_natCast, ← last, List.getLast?_eq_getElem?, length, Nat.add_sub_cancel]
    have all : r.replicas (n + 1) = r.peers.length + 1 := by
      rw [replicas, List.countP_eq_length.mpr, Nat.add_comm]
      intro peer member
      exact decide_eq_true (length ▸ everywhere peer member)
    simp only [found, all]
    rw [if_pos (by omega), if_pos ownTerm]
    rfl
  next below => omega

/-- A leader of a term, with a log whose last entry is of that term, and with records
of its peers that stay within the log. -/
structure Raft.Leading (book : List LogEntry) (term : Nat) (r : Raft) : Prop where
  leads : r.state = .leader
  running : r.shutdown = false
  current : r.currentTerm = term
  log : r.log = book
  uncompacted : r.logBase = 0
  own : ∃ entry, book.getLast? = some entry ∧ entry.term = term
  next : ∀ peer ∈ r.peers, 1 ≤ peer.nextIndex ∧ peer.nextIndex ≤ book.length + 1
  matched : ∀ peer ∈ r.peers, peer.matchIndex ≤ book.length

/-- The leader has committed its log if every peer is known to have it. -/
structure Raft.Commands (book : List LogEntry) (term : Nat) (r : Raft) : Prop
    extends Leading book term r where
  settled : (∀ peer ∈ r.peers, book.length ≤ peer.matchIndex) → book.length ≤ r.commitIndex

/-- The leader knows that a peer has its log. -/
def Raft.Recorded (book : List LogEntry) (p : Int) (r : Raft) : Prop :=
  ∀ peer ∈ r.peers, peer.id = p → book.length ≤ peer.matchIndex

namespace Raft

variable {book : List LogEntry} {term : Nat} {r f : Raft} {p : Int} {peer : Peer}

theorem mem_updatePeer {g : Peer → Peer} :
    peer ∈ (r.updatePeer p g).peers ↔
      ∃ q ∈ r.peers, peer = if q.id = p then g q else q := by
  simp only [updatePeer, List.mem_map, eq_comm]

theorem Leading.commands (leading : Leading book term r) :
    Commands book term r.updateCommitIndex := by
  obtain ⟨commitIndex, commitCh, -, moved⟩ := r.updateCommitIndex_eq
  obtain ⟨entry, last, ownTerm⟩ := leading.own
  constructor
  · rw [moved]
    exact ⟨leading.leads, leading.running, leading.current, leading.log, leading.uncompacted,
      leading.own, leading.next, leading.matched⟩
  · rw [updateCommitIndex_peers, ← leading.log]
    exact updateCommitIndex_whole leading.leads leading.uncompacted (leading.log ▸ last)
      (ownTerm.trans leading.current.symm)

/-- The leader changes its record of a peer. -/
theorem Leading.updatePeer (leading : Leading book term r) (p : Int) {g : Peer → Peer}
    (next : ∀ peer ∈ r.peers, 1 ≤ (g peer).nextIndex ∧ (g peer).nextIndex ≤ book.length + 1)
    (matched : ∀ peer ∈ r.peers, (g peer).matchIndex ≤ book.length) :
    Leading book term (r.updatePeer p g) where
  leads := leading.leads
  running := leading.running
  current := leading.current
  log := leading.log
  uncompacted := leading.uncompacted
  own := leading.own
  next peer member := by
    obtain ⟨known, inPeers, rfl⟩ := mem_updatePeer.mp member
    split
    · exact next known inPeers
    · exact leading.next known inPeers
  matched peer member := by
    obtain ⟨known, inPeers, rfl⟩ := mem_updatePeer.mp member
    split
    · exact matched known inPeers
    · exact leading.matched known inPeers

@[simp] theorem stepBack_matchIndex (peer : Peer) :
    peer.stepBack.matchIndex = peer.matchIndex := by
  unfold Peer.stepBack
  split <;> rfl

@[simp] theorem stepBack_id (peer : Peer) : peer.stepBack.id = peer.id := by
  unfold Peer.stepBack
  split <;> rfl

/-- A rejection is recorded. -/
theorem Commands.stepBack (commands : Commands book term r) (p : Int) :
    Commands book term (r.updatePeer p Peer.stepBack) where
  toLeading := by
    refine commands.updatePeer p (fun peer member => ?_) fun peer member => ?_
    · have within := commands.next peer member
      unfold Peer.stepBack
      split
      · exact ⟨by simp only; omega, by simp only; omega⟩
      · exact within
    · rw [stepBack_matchIndex]
      exact commands.matched peer member
  settled everywhere := by
    refine commands.settled fun peer member => ?_
    have reached := everywhere _ (mem_updatePeer.mpr ⟨peer, member, rfl⟩)
    split at reached
    · rwa [stepBack_matchIndex] at reached
    · exact reached

/-- A success is recorded, and the commit index follows. -/
theorem Commands.advance (commands : Commands book term r) (p : Int) :
    Commands book term (r.updatePeer p (Peer.advance book.length)).updateCommitIndex := by
  refine (commands.updatePeer p (fun peer member => ?_) fun peer member => ?_).commands
  · rw [Peer.advance_of_le (commands.matched peer member)]
    exact ⟨Nat.le_add_left _ _, le_rfl⟩
  · rw [Peer.advance_of_le (commands.matched peer member)]

/-- No record is lost. -/
theorem Recorded.updatePeer {g : Peer → Peer} (recorded : Recorded book p r) (q : Int)
    (keeps : ∀ peer, (g peer).id = peer.id)
    (grows : ∀ peer, peer.matchIndex ≤ (g peer).matchIndex) :
    Recorded book p (r.updatePeer q g) := by
  intro peer member here
  obtain ⟨known, inPeers, rfl⟩ := mem_updatePeer.mp member
  split
  next changed =>
    rw [if_pos changed, keeps] at here
    exact (recorded known inPeers here).trans (grows known)
  next same =>
    rw [if_neg same] at here
    exact recorded known inPeers here

theorem Recorded.stepBack (recorded : Recorded book p r) (q : Int) :
    Recorded book p (r.updatePeer q Peer.stepBack) :=
  recorded.updatePeer q stepBack_id fun peer => (stepBack_matchIndex peer).ge

theorem Recorded.advance (recorded : Recorded book p r) (q : Int) :
    Recorded book p (r.updatePeer q (Peer.advance book.length)).updateCommitIndex := by
  have kept := recorded.updatePeer q (g := Peer.advance book.length) (fun _ => rfl) fun peer => by
    simp only [Peer.advance]
    split <;> omega
  rwa [Recorded, updateCommitIndex_peers]

theorem recorded_advance (r : Raft) (p : Int) :
    Recorded book p (r.updatePeer p (Peer.advance book.length)).updateCommitIndex := by
  rw [Recorded, updateCommitIndex_peers]
  intro peer member here
  obtain ⟨known, -, rfl⟩ := mem_updatePeer.mp member
  split
  · simp only [Peer.advance]
    split <;> omega
  next other =>
    rw [if_neg other] at here
    exact absurd here other

/-! ## One exchange -/

theorem agrees_of_isPrefix {log : List LogEntry} (isPrefix : book <+: log) :
    Agrees log book := by
  intro k held sent _ found _
  have bound := (List.getElem?_eq_some_iff.mp found).1
  rw [List.prefix_iff_eq_take.mp isPrefix, List.take_take, Nat.min_eq_left (by omega)]

/-- A follower that can be led: its log satisfies log matching with the leader's, it is
not ahead in term, and it has entries of the leader's term only with the leader's
whole log. -/
structure Led (book : List LogEntry) (term : Nat) (f : Raft) : Prop where
  follows : Follows book f
  behind : f.currentTerm ≤ term
  older : f.log = book ∨ ∀ entry ∈ f.log, entry.term < term

/-- The leader's log takes the place of the follower's: the last entry of the leader is
of its own term, so nothing can stand after it. -/
theorem Led.merge_eq (led : Led book term f)
    (own : ∃ entry, book.getLast? = some entry ∧ entry.term = term) :
    merge f.log book = book := by
  rcases led.older with same | older
  · rw [same, merge, if_pos (List.prefix_refl _)]
  · obtain ⟨entry, last, ownTerm⟩ := own
    refine if_neg fun inLog => ?_
    exact (older entry (inLog.subset (List.mem_of_getLast? last))).ne ownTerm

theorem Led.accepted (led : Led book term f) {req : AppendEntriesRequest} {f' : Raft}
    {disk : Disk} (called : f.appendEntries req disk = some (f', .ok ⟨term, true⟩))
    (whole : f'.log = book) : Led book term f' := by
  rcases appendEntries_cases called with
    ⟨-, _, refused⟩ | ⟨heard, log, modified, yields, current, accepts, outcome⟩
  · cases refused
  · rcases outcome with ⟨-, -, err, failed⟩ | ⟨commitCh, rfl, answered⟩
    · cases failed
    · cases answered
      refine ⟨⟨yields.logBase.trans led.follows.uncompacted, ?_⟩, current.le, .inl whole⟩
      exact agrees_of_isPrefix (whole ▸ List.prefix_refl _)

/-- What an accepted request leaves: the log of the leader, and its commit index as far
as the log reaches. -/
structure Holds (book : List LogEntry) (commitIdx : Nat) (f : Raft) : Prop where
  log : f.log = book
  commitIndex : min commitIdx book.length ≤ f.commitIndex

/-- A request of the leader is refused at a next index that can be lowered, or it is
accepted. -/
theorem Commands.exchange (commands : Commands book term r) (known : r.peer? p = some peer)
    (led : Led book term f) (commitIdx : Nat) :
    ∃ req f' success, r.sendAppendEntries p term commitIdx = .request req ∧
      req.term = term ∧ req.leaderCommit = commitIdx ∧
      f.appendEntries req {} = some (f', .ok ⟨term, success⟩) ∧ Led book term f' ∧
      r.handleAppendEntriesResponse p req ⟨term, success⟩ =
        (if success then
          ((r.updatePeer p (Peer.advance book.length)).updateCommitIndex, false)
        else (r.updatePeer p Peer.stepBack, true)) ∧
      if success then Holds book commitIdx f' else 1 < peer.nextIndex := by
  have member := List.mem_of_find?_eq_some known
  obtain ⟨positive, within⟩ := commands.next peer member
  have lagging : Link.Lagging book term p peer ⟨r, f⟩ :=
    ⟨commands.leads, commands.running, commands.current, commands.log, commands.uncompacted,
      known, positive, within, commands.matched peer member, led.follows, led.behind⟩
  have slice := lagging.slice commitIdx
  obtain ⟨previous, reaches⟩ := appendEntriesRequest_of_uncompacted commands.uncompacted
    positive (by rw [commands.log]; exact within) term commitIdx
  rw [commands.log] at reaches
  obtain ⟨f', success, called, answer⟩ := led.follows.answers slice led.behind
  have merged := led.merge_eq commands.own
  refine ⟨_, f', success, lagging.sends commitIdx, rfl, rfl, called, ?_, ?_, ?_⟩
  · cases success with
    | false =>
        obtain ⟨-, unchanged, follows, behind⟩ := answer
        exact ⟨follows, behind, unchanged ▸ led.older⟩
    | true =>
        rw [if_pos rfl, reaches, List.take_length] at answer
        exact led.accepted called (answer.trans merged)
  · rw [lagging.handles rfl, reaches]
  · cases success with
    | false =>
        have later : 0 < (r.appendEntriesRequest peer.nextIndex term commitIdx).prevLogIndex :=
          answer.1
        simp only [Bool.false_eq_true, if_false]
        omega
    | true =>
        obtain ⟨held, committed⟩ := led.follows.of_success slice called
        rw [reaches] at held committed
        rw [List.take_length] at held
        exact ⟨held.trans merged, committed⟩

end Raft

namespace Cluster

/-! ## Exchanges in the cluster -/

/-- Node `c` and those that answer it act, on a network that delivers and on disks
that work; `cmd` is the only command. -/
def Calm (c : Int) (cmd : Bytes) (_ : Cluster) : Action → Prop
  | .campaign i _ | .sendRequestVote i _ _ | .becomeLeader i _ | .heartbeat i
  | .sendAppendEntries i _ _ _ => i = c
  | .replicate i command disk => i = c ∧ command = cmd ∧ disk = {}
  | .receive packet disk => packet.src = c ∧ disk = {}
  | _ => False

variable {m : Membership} {s t : Cluster} {c p : Int} {cmd : Bytes} {term commitIdx : Nat}

theorem calm_tail {u : Cluster} {a : Action} (run : Run (step m) (Calm c cmd) s t)
    (stepped : t.step m a = some u) (calm : Calm c cmd t a) : Run (step m) (Calm c cmd) s u :=
  run.tail calm stepped

/-- Every goroutine but one is still there. -/
def KeepsTasks (gone : Task) (s t : Cluster) : Prop :=
  ∀ task ∈ s.tasks, task ≠ gone → task ∈ t.tasks

/-- A request of the leader, its answer and the handling of the answer. -/
theorem run_exchange (cmd : Bytes) {req : AppendEntriesRequest} {resp : AppendEntriesResponse}
    {f r : Raft} {retry : Bool} (other : p ≠ c)
    (pending : .sendAppendEntries c p term commitIdx ∈ s.tasks)
    (sends : (s.node c).sendAppendEntries p term commitIdx = .request req)
    (called : (s.node p).appendEntries req {} = some (f, .ok resp))
    (handled : (s.node c).handleAppendEntriesResponse p req resp = (r, retry)) :
    ∃ t, Run (step m) (Calm c cmd) s t ∧ t.node c = r ∧ t.node p = f ∧
      (∀ i, i ≠ c → i ≠ p → t.node i = s.node i) ∧
      KeepsTasks (.sendAppendEntries c p term commitIdx) s t ∧
      (retry = true → .sendAppendEntries c p req.term req.leaderCommit ∈ t.tasks) := by
  have sent : s.step m (.sendAppendEntries c p term commitIdx) = some { s with
      tasks := s.tasks.erase (.sendAppendEntries c p term commitIdx)
      net := .appendEntries c p req :: s.net } := by
    simp only [step, if_pos pending, sends]
  have served : step m { s with
      tasks := s.tasks.erase (.sendAppendEntries c p term commitIdx)
      net := .appendEntries c p req :: s.net } (.receive (.appendEntries c p req) {}) =
        some { s.setNode p f with
          tasks := s.tasks.erase (.sendAppendEntries c p term commitIdx)
          net := .appendEntriesReply c p req resp :: s.net
          history := (if resp.success then
            [Event.acknowledged p req.term (req.prevLogIndex + req.entries.length)] else []) ++
              s.history } := by
    simp only [step, List.mem_cons_self, if_true, deliver, called, List.erase_cons_head]
    rfl
  have leader : (s.setNode p f).node c = s.node c := Function.update_of_ne other.symm _ _
  have recorded : ∃ t, step m { s.setNode p f with
      tasks := s.tasks.erase (.sendAppendEntries c p term commitIdx)
      net := .appendEntriesReply c p req resp :: s.net
      history := (if resp.success then
        [Event.acknowledged p req.term (req.prevLogIndex + req.entries.length)] else []) ++
          s.history } (.receive (.appendEntriesReply c p req resp) {}) = some t ∧
        t.node = Function.update (s.setNode p f).node c r ∧
        t.tasks = (if retry then [.sendAppendEntries c p req.term req.leaderCommit] else []) ++
          s.tasks.erase (.sendAppendEntries c p term commitIdx) := by
    simp only [step, List.mem_cons_self, if_true, deliver, leader, handled]
    exact ⟨_, rfl, rfl, rfl⟩
  obtain ⟨t, recorded, node, tasks⟩ := recorded
  have asked : Run (step m) (Calm c cmd) s _ := calm_tail (.refl s) sent rfl
  have run := calm_tail (calm_tail asked served ⟨rfl, rfl⟩) recorded ⟨rfl, rfl⟩
  refine ⟨t, run, ?_, ?_, ?_, ?_, ?_⟩
  · rw [node, Function.update_self]
  · rw [node, Function.update_of_ne other]
    exact Function.update_self _ _ _
  · intro i notLeader notPeer
    rw [node, Function.update_of_ne notLeader]
    exact Function.update_of_ne notPeer _ _
  · intro task member different
    rw [tasks]
    exact List.mem_append_right _ ((List.mem_erase_of_ne different).mpr member)
  · rintro rfl
    rw [tasks]
    exact List.mem_cons_self

/-! ## Catching up -/

/-- Node `c` leads with the log `book`, and everybody else can be led. -/
structure Commanding (m : Membership) (c : Int) (book : List LogEntry) (term : Nat)
    (s : Cluster) : Prop where
  leader : (s.node c).Commands book term
  peers : (s.node c).peers.map (·.id) = m.ids.filter (· ≠ c)
  led : ∀ i ∈ m.ids, i ≠ c → (s.node i).Led book term

/-- One follower has been brought to the log of the leader; all others are where they
were, and the leader has forgotten nothing. -/
structure CaughtUp (c p : Int) (book : List LogEntry) (term commitIdx : Nat)
    (s t : Cluster) : Prop where
  others : ∀ i, i ≠ c → i ≠ p → t.node i = s.node i
  holds : (t.node p).Holds book commitIdx
  recorded : (t.node c).Recorded book p
  kept : ∀ q, (s.node c).Recorded book q → (t.node c).Recorded book q
  tasks : KeepsTasks (.sendAppendEntries c p term commitIdx) s t

variable {book : List LogEntry}

theorem Commanding.exists_peer (commanding : Commanding m c book term s) (member : p ∈ m.ids)
    (other : p ≠ c) : ∃ peer, (s.node c).peer? p = some peer := by
  have listed : p ∈ (s.node c).peers.map (·.id) := by
    rw [commanding.peers]
    exact List.mem_filter.mpr ⟨member, by simpa using other⟩
  obtain ⟨peer, known, rfl⟩ := List.mem_map.mp listed
  exact Option.isSome_iff_exists.mp (List.find?_isSome.mpr ⟨peer, known, by simp⟩)

/-- The leader steps back until the follower accepts.  The induction is on the next
index, which every rejection lowers. -/
theorem Commanding.catchUp (cmd : Bytes) (commanding : Commanding m c book term s)
    (member : p ∈ m.ids) (other : p ≠ c)
    (pending : .sendAppendEntries c p term commitIdx ∈ s.tasks) :
    ∃ t, Run (step m) (Calm c cmd) s t ∧ Commanding m c book term t ∧
      CaughtUp c p book term commitIdx s t := by
  obtain ⟨peer, known⟩ := commanding.exists_peer member other
  induction nextIdx : peer.nextIndex generalizing s peer with
  | zero =>
      have positive := (commanding.leader.next peer (List.mem_of_find?_eq_some known)).1
      omega
  | succ n ih =>
      obtain ⟨req, f, success, sends, sameTerm, sameCommit, called, led, handled, answer⟩ :=
        commanding.leader.exchange known (commanding.led p member other) commitIdx
      have leadsOn : ∀ {u : Cluster} {g : Peer → Peer}, (u.node c).Commands book term →
          (u.node c).peers = ((s.node c).updatePeer p g).peers → (∀ q, (g q).id = q.id) →
          u.node p = f → (∀ i, i ≠ c → i ≠ p → u.node i = s.node i) →
          Commanding m c book term u := by
        intro u g leader peers keeps follower others
        refine ⟨leader, ?_, fun i inCluster notLeader => ?_⟩
        · rw [peers, updatePeer_ids _ _ keeps]
          exact commanding.peers
        · by_cases here : i = p
          · rw [here, follower]
            exact led
          · rw [others i notLeader here]
            exact commanding.led i inCluster notLeader
      cases success with
      | true =>
          obtain ⟨t, run, leader, follower, others, tasks, -⟩ :=
            run_exchange (m := m) cmd other pending sends called handled
          refine ⟨t, run, leadsOn (g := Peer.advance book.length) ?_ ?_ (fun _ => rfl) follower
            others, others, ?_, ?_, fun q recorded => ?_, tasks⟩
          · rw [leader]
            exact commanding.leader.advance p
          · rw [leader, updateCommitIndex_peers]
          · rw [follower]
            exact answer
          · rw [leader]
            exact recorded_advance _ p
          · rw [leader]
            exact recorded.advance p
      | false =>
          obtain ⟨u, run, leader, follower, others, tasks, again⟩ :=
            run_exchange (m := m) cmd other pending sends called handled
          rw [sameTerm, sameCommit] at again
          have lower : peer.stepBack.nextIndex = n := by
            have above : peer.nextIndex > 1 := answer
            rw [Peer.stepBack, if_pos above]
            simp only [nextIdx, Nat.add_sub_cancel]
          have known' : (u.node c).peer? p = some peer.stepBack := by
            rw [leader]
            exact peer?_updatePeer stepBack_id known
          have commanding' : Commanding m c book term u := by
            refine leadsOn (g := Peer.stepBack) ?_ ?_ stepBack_id follower others
            · rw [leader]
              exact commanding.leader.stepBack p
            · rw [leader]
          obtain ⟨t, rest, commanding'', caughtUp⟩ :=
            ih commanding' (again rfl) peer.stepBack known' lower
          refine ⟨t, run.trans rest, commanding'', ?_, caughtUp.holds, caughtUp.recorded, ?_, ?_⟩
          · intro i notLeader notPeer
            rw [caughtUp.others i notLeader notPeer, others i notLeader notPeer]
          · intro q recorded
            refine caughtUp.kept q ?_
            rw [leader]
            exact recorded.stepBack p
          · intro task inTasks different
            exact caughtUp.tasks task (tasks task inTasks different) different

/-- The leader brings the followers to its log, one after the other. -/
theorem Commanding.catchUpAll (cmd : Bytes) {todo : List Int} (distinct : todo.Nodup)
    (commanding : Commanding m c book term s) (members : ∀ p ∈ todo, p ∈ m.ids ∧ p ≠ c)
    (pending : ∀ p ∈ todo, .sendAppendEntries c p term commitIdx ∈ s.tasks) :
    ∃ t, Run (step m) (Calm c cmd) s t ∧ Commanding m c book term t ∧
      (∀ p ∈ todo, (t.node p).Holds book commitIdx ∧ (t.node c).Recorded book p) ∧
      (∀ i, i ≠ c → i ∉ todo → t.node i = s.node i) ∧
      ∀ q, (s.node c).Recorded book q → (t.node c).Recorded book q := by
  induction todo generalizing s with
  | nil =>
      refine ⟨s, .refl s, commanding, ?_, fun _ _ _ => rfl, fun _ => id⟩
      intro p member
      cases member
  | cons p rest ih =>
      obtain ⟨fresh, distinct⟩ := List.nodup_cons.mp distinct
      obtain ⟨member, other⟩ := members p List.mem_cons_self
      obtain ⟨u, run, commanding', caughtUp⟩ :=
        commanding.catchUp cmd member other (pending p List.mem_cons_self)
      have pending' : ∀ q ∈ rest, .sendAppendEntries c q term commitIdx ∈ u.tasks := by
        intro q inRest
        refine caughtUp.tasks _ (pending q (List.mem_cons_of_mem _ inRest)) ?_
        rintro ⟨⟩
        exact fresh inRest
      obtain ⟨t, later, commanding'', done, others, kept⟩ := ih distinct commanding'
        (fun q inRest => members q (List.mem_cons_of_mem _ inRest)) pending'
      refine ⟨t, run.trans later, commanding'', ?_, ?_, fun q => kept q ∘ caughtUp.kept q⟩
      · intro q inTodo
        rcases List.mem_cons.mp inTodo with rfl | inRest
        · rw [others q other fresh]
          exact ⟨caughtUp.holds, kept q caughtUp.recorded⟩
        · exact done q inRest
      · intro i notLeader outside
        obtain ⟨notPeer, notRest⟩ := not_or.mp (List.mem_cons.not.mp outside)
        rw [others i notLeader notRest, caughtUp.others i notLeader notPeer]

/-- When every follower has been sent the log, the leader has committed it, and one
round of heartbeats tells the others. -/
theorem Commanding.spread (cmd : Bytes) (commanding : Commanding m c book term s)
    (member : c ∈ m.ids)
    (pending : ∀ peer ∈ (s.node c).peers, .sendAppendEntries c peer.id term commitIdx ∈ s.tasks) :
    ∃ t, Run (step m) (Calm c cmd) s t ∧ Commanding m c book term t ∧
      ∀ i ∈ m.ids, (t.node i).log = book ∧ book.length ≤ (t.node i).commitIndex := by
  have distinct : (m.ids.filter (· ≠ c)).Nodup := m.nodup.filter _
  have members : ∀ p ∈ m.ids.filter (· ≠ c), p ∈ m.ids ∧ p ≠ c := by
    intro p inOthers
    simpa using List.mem_filter.mp inOthers
  -- a leader knows everybody else
  have everybody : ∀ {s : Cluster}, Commanding m c book term s →
      ∀ p ∈ m.ids.filter (· ≠ c), ∃ peer ∈ (s.node c).peers, peer.id = p := by
    intro s commanding p inOthers
    rw [← commanding.peers] at inOthers
    exact List.mem_map.mp inOthers
  have others : ∀ {s : Cluster}, Commanding m c book term s →
      ∀ peer ∈ (s.node c).peers, peer.id ∈ m.ids.filter (· ≠ c) := by
    intro s commanding peer known
    rw [← commanding.peers]
    exact List.mem_map_of_mem known
  have pending' : ∀ p ∈ m.ids.filter (· ≠ c), .sendAppendEntries c p term commitIdx ∈ s.tasks := by
    intro p inOthers
    obtain ⟨peer, known, rfl⟩ := everybody commanding p inOthers
    exact pending peer known
  obtain ⟨u, first, commanding', done, -, -⟩ :=
    commanding.catchUpAll cmd distinct members pending'
  have committed : book.length ≤ (u.node c).commitIndex :=
    commanding'.leader.settled fun peer known =>
      (done peer.id (others commanding' peer known)).2 peer known rfl
  have beats : u.step m (.heartbeat c) =
      some { u with tasks := fanOut c (u.node c) ++ u.tasks } := by
    rw [step, if_pos ⟨member, commanding'.leader.leads, commanding'.leader.running⟩]
  have sent : ∀ p ∈ m.ids.filter (· ≠ c),
      .sendAppendEntries c p term (u.node c).commitIndex ∈ fanOut c (u.node c) ++ u.tasks := by
    intro p inOthers
    obtain ⟨peer, known, rfl⟩ := everybody commanding' p inOthers
    refine List.mem_append_left _ (List.mem_map.mpr ⟨peer, known, ?_⟩)
    rw [commanding'.leader.current]
  obtain ⟨t, second, commanding'', told, -, -⟩ := Commanding.catchUpAll (m := m)
    (s := { u with tasks := fanOut c (u.node c) ++ u.tasks }) cmd distinct
    ⟨commanding'.leader, commanding'.peers, commanding'.led⟩ members sent
  refine ⟨t, (calm_tail first beats rfl).trans second, commanding'', fun i inCluster => ?_⟩
  by_cases here : i = c
  · subst here
    refine ⟨commanding''.leader.log, ?_⟩
    refine commanding''.leader.settled fun peer known => ?_
    exact (told peer.id (others commanding'' peer known)).2 peer known rfl
  · obtain ⟨log, commit⟩ := (told i (List.mem_filter.mpr ⟨inCluster, by simpa using here⟩)).1
    rw [Nat.min_eq_right committed] at commit
    exact ⟨log, commit⟩

/-! ## Votes -/

/-- A node that has changed nothing but its term and its vote, and is not ahead. -/
structure Voted (term : Nat) (before after : Raft) : Prop where
  log : after.log = before.log
  logBase : after.logBase = before.logBase
  behind : after.currentTerm ≤ term

/-- The exchange in which a candidate gets a vote. -/
theorem run_vote (cmd : Bytes) (other : p ≠ c) (pending : .sendRequestVote c p term ∈ s.tasks)
    (candidate : (s.node c).state = .candidate) (current : (s.node c).currentTerm = term)
    (higher : (s.node p).currentTerm < term)
    (upToDate : (s.node p).logOk ((s.node c).requestVoteRequest term) = true) :
    ∃ t, Run (step m) (Calm c cmd) s t ∧
      t.node c = { s.node c with votesReceived := (s.node c).votesReceived + 1 } ∧
      Voted term (s.node p) (t.node p) ∧ (∀ i, i ≠ c → i ≠ p → t.node i = s.node i) ∧
      KeepsTasks (.sendRequestVote c p term) s t ∧
      ((s.node c).peers.length / 2 < (s.node c).votesReceived + 1 →
        .becomeLeader c term ∈ t.tasks) := by
  obtain ⟨f, granted, voterTerm, log, logBase⟩ := requestVote_grants higher upToDate
  have asked : s.step m (.sendRequestVote c p term) = some { s with
      tasks := s.tasks.erase (.sendRequestVote c p term)
      net := .requestVote c p ((s.node c).requestVoteRequest term) :: s.net } := by
    simp only [step, if_pos pending]
  have served : step m { s with
      tasks := s.tasks.erase (.sendRequestVote c p term)
      net := .requestVote c p ((s.node c).requestVoteRequest term) :: s.net }
        (.receive (.requestVote c p ((s.node c).requestVoteRequest term)) {}) =
      some { s.setNode p f with
        tasks := s.tasks.erase (.sendRequestVote c p term)
        net := .requestVoteReply c p term ⟨term, true⟩ :: s.net
        history := .granted p term ((s.node c).requestVoteRequest term) :: s.history } := by
    simp only [step, List.mem_cons_self, if_true, deliver, granted, List.erase_cons_head]
    rfl
  have self : (s.setNode p f).node c = s.node c := Function.update_of_ne other.symm _ _
  have handled : (s.node c).handleRequestVoteResponse term ⟨term, true⟩ =
      ({ s.node c with votesReceived := (s.node c).votesReceived + 1 },
        decide ((s.node c).votesReceived + 1 > (s.node c).peers.length / 2)) := by
    simp [handleRequestVoteResponse, candidate, current]
  have counted : ∃ t, step m { s.setNode p f with
      tasks := s.tasks.erase (.sendRequestVote c p term)
      net := .requestVoteReply c p term ⟨term, true⟩ :: s.net
      history := .granted p term ((s.node c).requestVoteRequest term) :: s.history }
        (.receive (.requestVoteReply c p term ⟨term, true⟩) {}) = some t ∧
      t.node = Function.update (s.setNode p f).node c
        { s.node c with votesReceived := (s.node c).votesReceived + 1 } ∧
      t.tasks = (if decide ((s.node c).votesReceived + 1 > (s.node c).peers.length / 2) then
        [.becomeLeader c term] else []) ++ s.tasks.erase (.sendRequestVote c p term) := by
    simp only [step, List.mem_cons_self, if_true, deliver, self, handled]
    exact ⟨_, rfl, rfl, rfl⟩
  obtain ⟨t, counted, node, tasks⟩ := counted
  have requested : Run (step m) (Calm c cmd) s _ := calm_tail (.refl s) asked rfl
  have run := calm_tail (calm_tail requested served ⟨rfl, rfl⟩) counted ⟨rfl, rfl⟩
  have follower : t.node p = f := by
    rw [node, Function.update_of_ne other]
    exact Function.update_self _ _ _
  refine ⟨t, run, ?_, ?_, ?_, ?_, ?_⟩
  · rw [node, Function.update_self]
  · rw [follower]
    exact ⟨log, logBase, voterTerm.le⟩
  · intro i notCandidate notVoter
    rw [node, Function.update_of_ne notCandidate]
    exact Function.update_of_ne notVoter _ _
  · intro task member different
    rw [tasks]
    exact List.mem_append_right _ ((List.mem_erase_of_ne different).mpr member)
  · intro enough
    rw [tasks, if_pos (decide_eq_true enough)]
    exact List.mem_cons_self

/-- A voter the candidate has yet to ask, and who will give its vote. -/
structure Willing (c : Int) (term : Nat) (s : Cluster) (p : Int) : Prop where
  other : p ≠ c
  pending : .sendRequestVote c p term ∈ s.tasks
  higher : (s.node p).currentTerm < term
  upToDate : (s.node p).logOk ((s.node c).requestVoteRequest term) = true

theorem Voted.trans {before between after : Raft} (first : Voted term before between)
    (second : Voted term between after) : Voted term before after :=
  ⟨second.log.trans first.log, second.logBase.trans first.logBase, second.behind⟩

/-- The candidate collects votes, one after the other. -/
theorem run_election (cmd : Bytes) {voters : List Int} (distinct : voters.Nodup)
    (candidate : (s.node c).state = .candidate) (current : (s.node c).currentTerm = term)
    (willing : ∀ p ∈ voters, Willing c term s p) :
    ∃ t, Run (step m) (Calm c cmd) s t ∧
      t.node c = { s.node c with
        votesReceived := (s.node c).votesReceived + voters.length } ∧
      (∀ i, i ≠ c → (s.node i).currentTerm ≤ term → Voted term (s.node i) (t.node i)) ∧
      (.becomeLeader c term ∈ s.tasks ∨ voters ≠ [] ∧
        (s.node c).peers.length / 2 < (s.node c).votesReceived + voters.length →
        .becomeLeader c term ∈ t.tasks) := by
  induction voters generalizing s with
  | nil =>
      refine ⟨s, .refl s, rfl, fun _ _ behind => ⟨rfl, rfl, behind⟩, ?_⟩
      rintro (pending | ⟨some, -⟩)
      · exact pending
      · exact absurd rfl some
  | cons p rest ih =>
      obtain ⟨fresh, distinct⟩ := List.nodup_cons.mp distinct
      obtain ⟨other, pending, higher, upToDate⟩ := willing p List.mem_cons_self
      obtain ⟨u, run, self, voted, others, tasks, elected⟩ :=
        run_vote (m := m) cmd other pending candidate current higher upToDate
      have willing' : ∀ q ∈ rest, Willing c term u q := by
        intro q inRest
        have before := willing q (List.mem_cons_of_mem _ inRest)
        have different : q ≠ p := fun same => fresh (same ▸ inRest)
        have same := others q before.other different
        refine ⟨before.other, tasks _ before.pending ?_, ?_, ?_⟩
        · rintro ⟨⟩
          exact different rfl
        · rw [same]
          exact before.higher
        · rw [same, self]
          exact before.upToDate
      obtain ⟨t, later, self', others', elected'⟩ := ih (s := u) distinct
        (by rw [self]; exact candidate) (by rw [self]; exact current) willing'
      rw [self] at self' elected'
      refine ⟨t, run.trans later, ?_, ?_, ?_⟩
      · rw [self', List.length_cons]
        simp only [Nat.add_assoc, Nat.add_comm]
      · intro i notCandidate behind
        by_cases here : i = p
        · subst here
          exact voted.trans (others' i other voted.behind)
        · rw [← others i notCandidate here] at behind ⊢
          exact others' i notCandidate behind
      · rintro (pending | ⟨-, enough⟩)
        · exact elected' (.inl (tasks _ pending (by simp)))
        · rw [List.length_cons] at enough
          rcases List.eq_nil_or_concat rest with rfl | ⟨_, _, rfl⟩
          · exact elected' (.inl (elected enough))
          · refine elected' (.inr ⟨by simp, ?_⟩)
            simp only
            omega

/-! ## The first command -/

/-- The log of the leader and its first command. -/
def withCommand (r : Raft) (term : Nat) (cmd : Bytes) : List LogEntry :=
  r.log ++ [⟨r.log.length + 1, term, cmd⟩]

/-- A leader that has just been promoted knows nothing about its peers yet, and stores
its first command. -/
theorem leading_enterLeader {r : Raft} (running : r.shutdown = false)
    (uncompacted : r.logBase = 0) (aligned : Aligned 0 r.log) (cmd : Bytes) :
    Leading (withCommand r r.currentTerm cmd) r.currentTerm
      (saved { r.enterLeader with log := withCommand r r.currentTerm cmd }) where
  leads := rfl
  running := running
  current := rfl
  log := rfl
  uncompacted := uncompacted
  own := ⟨_, List.getLast?_concat, rfl⟩
  next peer member := by
    have last : (r.log.getLast?.map (·.index)).getD 0 = r.log.length := by
      simpa using aligned.getLast_index
    obtain ⟨known, -, rfl⟩ := List.mem_map.mp member
    simp only [last, withCommand, List.length_append, List.length_singleton]
    omega
  matched peer member := by
    obtain ⟨known, -, rfl⟩ := List.mem_map.mp member
    exact Nat.zero_le _

/-- A candidate that has won is promoted, and its first command goes out to everybody. -/
theorem run_promotion (cmd : Bytes) (member : c ∈ m.ids)
    (pending : .becomeLeader c term ∈ s.tasks) (candidate : (s.node c).state = .candidate)
    (running : (s.node c).shutdown = false) (uncompacted : (s.node c).logBase = 0) :
    ∃ t r, Run (step m) (Calm c cmd) s t ∧
      r = (saved { (s.node c).enterLeader with
        log := withCommand (s.node c) (s.node c).currentTerm cmd }).updateCommitIndex ∧
      t.node = Function.update s.node c r ∧
      ∀ peer ∈ r.peers, .sendAppendEntries c peer.id r.currentTerm r.commitIndex ∈ t.tasks := by
  have promoted : ∃ u, s.step m (.becomeLeader c term) = some u ∧
      u.node = Function.update s.node c (s.node c).enterLeader := by
    simp only [step, if_pos pending, becomeLeader, candidate, running, ne_eq, not_true_eq_false,
      Bool.false_eq_true, or_self, if_false]
    exact ⟨_, rfl, rfl⟩
  obtain ⟨u, promoted, node⟩ := promoted
  have self : u.node c = (s.node c).enterLeader := by rw [node, Function.update_self]
  generalize stored : (saved { (s.node c).enterLeader with
    log := withCommand (s.node c) (s.node c).currentTerm cmd }).updateCommitIndex = r
  have called : (s.node c).enterLeader.replicateCommand cmd {} =
      (r, .ok ((s.node c).log.length + 1)) := by
    have base : (s.node c).enterLeader.logBase = 0 := uncompacted
    have leads : (s.node c).enterLeader.state = .leader := rfl
    rw [replicateCommand, if_neg (not_not.mpr leads), ← stored]
    simp only [base, Nat.add_zero, persist]
    rfl
  have written : ∃ t, u.step m (.replicate c cmd {}) = some t ∧
      t.node = Function.update u.node c r ∧ fanOut c r ⊆ t.tasks := by
    simp only [step, if_pos member, self, called]
    exact ⟨_, rfl, rfl, fun task sent => List.mem_cons_of_mem _ (List.mem_append_left _ sent)⟩
  obtain ⟨t, written, node', tasks⟩ := written
  have first : Run (step m) (Calm c cmd) s u := calm_tail (.refl s) promoted rfl
  refine ⟨t, r, calm_tail first written ⟨rfl, rfl, rfl⟩, rfl, ?_, ?_⟩
  · rw [node', node, Function.update_idem]
  · intro peer known
    exact tasks (List.mem_map.mpr ⟨peer, known, rfl⟩)

/-- A log that agrees with the log of a candidate, and has nothing of its new term,
agrees with what the candidate makes of it. -/
theorem agrees_withCommand {r : Raft} {log : List LogEntry} (agrees : Agrees log r.log)
    (older : ∀ entry ∈ log, entry.term < term) (cmd : Bytes) :
    Agrees log (withCommand r term cmd) := by
  intro k held sent found inBook sameTerm
  rcases Nat.lt_or_ge k r.log.length with inside | outside
  · rw [withCommand, List.getElem?_append_left inside] at inBook
    rw [withCommand, List.take_append_of_le_length inside]
    exact agrees k held sent found inBook sameTerm
  · rw [withCommand, List.getElem?_append_right outside] at inBook
    obtain rfl := List.mem_singleton.mp (List.mem_of_getElem? inBook)
    exact absurd sameTerm (older held (List.mem_of_getElem? found)).ne

/-- A node that has given its vote to a candidate can be led by it. -/
theorem Voted.led {before after r : Raft} (voted : Voted term before after)
    (uncompacted : before.logBase = 0) (agrees : Agrees before.log r.log)
    (older : ∀ entry ∈ before.log, entry.term < term) (cmd : Bytes) :
    Led (withCommand r term cmd) term after := by
  rw [← voted.log] at agrees older
  exact ⟨⟨voted.logBase.trans uncompacted, agrees_withCommand agrees older cmd⟩, voted.behind,
    .inr older⟩

/-- A node whose timer fires stands for election, with its new term stored. -/
theorem stood_of_electionTimeout (running : (s.node c).shutdown = false)
    (notLeader : (s.node c).state ≠ .leader)
    (fires : s.step m (.electionTimeout c {}) = some t) :
    c ∈ m.ids ∧ t.node = Function.update s.node c (s.node c).enterCandidate.saved ∧
      .campaign c ((s.node c).currentTerm + 1) ∈ t.tasks := by
  have called : (s.node c).becomeCandidate {} =
      ((s.node c).enterCandidate.saved, some ((s.node c).currentTerm + 1)) := by
    simp only [becomeCandidate, running, notLeader, Bool.false_eq_true, if_false, persist]
    rfl
  rw [step] at fires
  split at fires
  next member =>
    simp only [called] at fires
    cases fires
    exact ⟨member, rfl, List.mem_cons_self⟩
  · cases fires

/-- A node that campaigns in a new term with a log that is up to date for a majority
wins the votes of that majority and is promoted. -/
theorem run_campaign (cmd : Bytes) (member : c ∈ m.ids)
    (peers : (s.node c).peers.map (·.id) = m.ids.filter (· ≠ c))
    (candidate : (s.node c).state = .candidate) (current : (s.node c).currentTerm = term)
    (first : (s.node c).votesReceived = 1) (pending : .campaign c term ∈ s.tasks)
    (newest : ∀ i ∈ m.ids, i ≠ c → (s.node i).currentTerm < term) {quorum : Finset Int}
    (majority : Majority (population m) quorum)
    (upToDate : ∀ i ∈ quorum, i ≠ c →
      (s.node i).logOk ((s.node c).requestVoteRequest term) = true) :
    ∃ t, Run (step m) (Calm c cmd) s t ∧ .becomeLeader c term ∈ t.tasks ∧
      (∃ electionTimer votesReceived,
        t.node c = { s.node c with electionTimer, votesReceived }) ∧
      ∀ i ∈ m.ids, i ≠ c → Voted term (s.node i) (t.node i) := by
  have campaigns : ∃ u, s.step m (.campaign c term) = some u ∧
      u.node = Function.update s.node c (s.node c).resetElectionTimerLocked ∧
      campaignTasks c (s.node c).peers term ⊆ u.tasks := by
    rw [step, if_pos pending]
    exact ⟨_, rfl, rfl, List.subset_append_left _ _⟩
  obtain ⟨u, campaigns, node, tasks⟩ := campaigns
  have self : u.node c = (s.node c).resetElectionTimerLocked := by rw [node, Function.update_self]
  have others : ∀ i, i ≠ c → u.node i = s.node i := by
    intro i notCandidate
    rw [node, Function.update_of_ne notCandidate]
  have willing : ∀ p ∈ (quorum.erase c).toList, Willing c term u p := by
    intro p voter
    obtain ⟨other, inQuorum⟩ := Finset.mem_erase.mp (Finset.mem_toList.mp voter)
    have inCluster : p ∈ m.ids := List.mem_toFinset.mp (majority.1 inQuorum)
    have listed : p ∈ (s.node c).peers.map (·.id) := by
      rw [peers]
      exact List.mem_filter.mpr ⟨inCluster, by simpa using other⟩
    obtain ⟨peer, known, rfl⟩ := List.mem_map.mp listed
    refine ⟨other, tasks ?_, ?_, ?_⟩
    · rw [campaignTasks, if_neg (List.length_pos_of_mem known).ne']
      exact List.mem_map.mpr ⟨peer, known, rfl⟩
    · rw [others _ other]
      exact newest _ inCluster other
    · rw [others _ other, self]
      exact upToDate _ inQuorum other
  obtain ⟨t, run, self', voted, elected⟩ := run_election (m := m) (s := u) cmd
    (quorum.erase c).nodup_toList (by rw [self]; exact candidate) (by rw [self]; exact current)
    willing
  refine ⟨t, (calm_tail (.refl s) campaigns rfl).trans run, elected ?_, ?_, ?_⟩
  · have size : (s.node c).peers.length + 1 = m.ids.length := by
      rw [← m.length_others member, ← peers, List.length_map]
    have half := majority.2
    have few : quorum.card - 1 ≤ (quorum.erase c).card := Finset.pred_card_le_card_erase
    rw [population, List.toFinset_card_of_nodup m.nodup] at half
    rcases Nat.eq_zero_or_pos (s.node c).peers.length with alone | some
    · left
      apply tasks
      rw [campaignTasks, if_pos alone]
      exact List.mem_singleton_self _
    · right
      have votes : (u.node c).votesReceived = 1 := by
        rw [self]
        exact first
      have known : (u.node c).peers.length = (s.node c).peers.length := by
        rw [self]
        rfl
      rw [votes, known, Finset.length_toList]
      refine ⟨?_, by omega⟩
      rw [ne_eq, Finset.toList_eq_nil, ← Finset.card_eq_zero]
      omega
  · rw [self', self]
    exact ⟨_, _, rfl⟩
  · intro i inCluster notCandidate
    have same := others i notCandidate
    rw [← same]
    exact voted i notCandidate (same ▸ (newest i inCluster notCandidate).le)

/-- The cluster recovers: in every state of a run in which no step relies on more than
the disk holds, with crashes and restarts in any place, let the election timer of a
node fire whose term is the newest and whose log is up to date for a majority.  Then
messages that arrive and disks that work are enough for the node to be elected, to
have a command committed, and to bring every node to the same log, with the command
committed on each. -/
theorem campaign_recovers (fits : m.Fits) (run : Run (step m) (Careful m) (init m 0) s)
    (running : (s.node c).shutdown = false) (notLeader : (s.node c).state ≠ .leader)
    (newest : ∀ i ∈ m.ids, (s.node i).currentTerm ≤ (s.node c).currentTerm)
    {quorum : Finset Int} (majority : Majority (population m) quorum)
    (upToDate : ∀ i ∈ quorum, (s.node i).logOk
      ((s.node c).requestVoteRequest ((s.node c).currentTerm + 1)) = true)
    (fires : s.step m (.electionTimeout c {}) = some t) (cmd : Bytes) :
    ∃ u, Run (step m) (Calm c cmd) t u ∧ (u.node c).state = .leader ∧
      (u.node c).currentTerm = (s.node c).currentTerm + 1 ∧
      ∀ i ∈ m.ids,
        (u.node i).log = withCommand (s.node c) ((s.node c).currentTerm + 1) cmd ∧
        (s.node c).log.length + 1 ≤ (u.node i).commitIndex := by
  obtain ⟨agreeing, -⟩ := agreeing_of_run (.initial fits _) run
  have safety := agreeing.safety
  obtain ⟨member, node, pending⟩ := stood_of_electionTimeout running notLeader fires
  have self : t.node c = (s.node c).enterCandidate.saved := by rw [node, Function.update_self]
  have others : ∀ i, i ≠ c → t.node i = s.node i := by
    intro i notCandidate
    rw [node, Function.update_of_ne notCandidate]
  have peers : (t.node c).peers.map (·.id) = m.ids.filter (· ≠ c) := by
    rw [self]
    exact safety.static.peers c
  have below : ∀ i ∈ m.ids, i ≠ c → (t.node i).currentTerm < (s.node c).currentTerm + 1 := by
    intro i inCluster notCandidate
    rw [others i notCandidate]
    exact Nat.lt_succ_of_le (newest i inCluster)
  obtain ⟨u, campaigned, won, ⟨electionTimer, votesReceived, self'⟩, voted⟩ :=
    run_campaign cmd member peers (by rw [self]; rfl) (by rw [self]; rfl) (by rw [self]; rfl)
      pending below majority fun i inQuorum notCandidate => by
        rw [others i notCandidate, self]
        exact upToDate i inQuorum
  rw [self] at self'
  have log : (u.node c).log = (s.node c).log := by rw [self']; rfl
  have current : (u.node c).currentTerm = (s.node c).currentTerm + 1 := by rw [self']; rfl
  have uncompacted : (u.node c).logBase = 0 := by
    rw [self']
    exact safety.flat.logBase c
  have running' : (u.node c).shutdown = false := by
    rw [self']
    exact running
  have aligned : Aligned 0 (u.node c).log := by
    rw [log, ← safety.flat.whole_eq c]
    exact safety.shaped.aligned c
  obtain ⟨v, r, promoted, stored, node', sent⟩ :=
    run_promotion cmd member won (by rw [self']; rfl) running' uncompacted
  have commands : r.Commands (withCommand (s.node c) ((s.node c).currentTerm + 1) cmd)
      ((s.node c).currentTerm + 1) := by
    have same : withCommand (s.node c) ((s.node c).currentTerm + 1) cmd =
        withCommand (u.node c) (u.node c).currentTerm cmd := by
      rw [withCommand, withCommand, log, current]
    rw [same, stored, ← current]
    exact (leading_enterLeader running' uncompacted aligned cmd).commands
  have leader : v.node c = r := by rw [node', Function.update_self]
  have commanding : Commanding m c (withCommand (s.node c) ((s.node c).currentTerm + 1) cmd)
      ((s.node c).currentTerm + 1) v := by
    refine ⟨leader ▸ commands, ?_, fun i inCluster notCandidate => ?_⟩
    · rw [leader, stored, updateCommitIndex_peers, ← safety.static.peers c]
      simp only [saved, enterLeader, List.map_map, self']
      rfl
    · have before := voted i inCluster notCandidate
      rw [others i notCandidate] at before
      rw [node', Function.update_of_ne notCandidate]
      refine before.led (safety.flat.logBase i) ?_ (fun entry held => ?_) cmd
      · rw [← safety.flat.whole_eq i, ← safety.flat.whole_eq c]
        exact agrees_of_rooted (safety.matching.rooted i) (safety.matching.rooted c)
      · exact Nat.lt_succ_of_le ((safety.bounded i entry held).trans (newest i inCluster))
  obtain ⟨w, spread, commanding', everywhere⟩ := commanding.spread cmd member fun peer known => by
    rw [leader] at known
    rw [← commands.current]
    exact sent peer known
  refine ⟨w, (campaigned.trans promoted).trans spread, commanding'.leader.leads,
    commanding'.leader.current, fun i inCluster => ?_⟩
  obtain ⟨held, committed⟩ := everywhere i inCluster
  rw [withCommand, List.length_append, List.length_singleton] at committed
  exact ⟨held, committed⟩

/-- Node `1` has the first command of node `0`, and node `0` has one more that nobody
else has. -/
def strayed : List Action := replication ++ [.replicate 0 [8] {}]

/-- Node `1` wins with node `2`, and node `0` gives its second command up. -/
theorem campaign_recovers_strayed :
    ∃ s t u, Run (step threeNodes) (Careful threeNodes) (init threeNodes 0) s ∧
      s.step threeNodes (.electionTimeout 1 {}) = some t ∧
      Run (step threeNodes) (Calm 1 [9]) t u ∧
      (s.node 0).log = [⟨1, 1, [7]⟩, ⟨2, 1, [8]⟩] ∧
      (u.node 0).log = [⟨1, 1, [7]⟩, ⟨2, 2, [9]⟩] ∧ 2 ≤ (u.node 0).commitIndex := by
  have reached : ∃ s, Run (step threeNodes) (Careful threeNodes) (init threeNodes 0) s ∧
      (s.node 0).log = [⟨1, 1, [7]⟩, ⟨2, 1, [8]⟩] ∧ (s.node 1).log = [⟨1, 1, [7]⟩] ∧
      (s.node 1).shutdown = false ∧ (s.node 1).state ≠ .leader ∧
      (s.node 1).currentTerm = 1 ∧
      (∀ i ∈ threeNodes.ids, (s.node i).currentTerm ≤ (s.node 1).currentTerm) ∧
      (∀ i ∈ ({1, 2} : Finset Int), (s.node i).logOk
        ((s.node 1).requestVoteRequest ((s.node 1).currentTerm + 1)) = true) ∧
      (s.step threeNodes (.electionTimeout 1 {})).isSome = true :=
    exists_run_of_perform strayed _ (by decide +kernel)
  obtain ⟨s, run, log, log', running, notLeader, term, newest, upToDate, fires⟩ := reached
  obtain ⟨t, fires⟩ := Option.isSome_iff_exists.mp fires
  have majority : Majority (population threeNodes) {1, 2} := by decide
  obtain ⟨u, later, -, -, everywhere⟩ :=
    campaign_recovers (by decide) run running notLeader newest majority upToDate fires [9]
  have recovered := everywhere 0 (by decide)
  rw [withCommand, log', term] at recovered
  exact ⟨s, t, u, run, fires, later, log, recovered.1, recovered.2⟩

end Cluster

end DistribKV
