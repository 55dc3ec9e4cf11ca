import DistribKV.Cluster.LogMatching
import DistribKV.Cluster.Peers

/-!
# What a leader knows of its peers

A leader counts copies of its entries by the match index it keeps for each peer.
Two answers raise it: a successful answer to `AppendEntries`, and any answer of the
current term to `InstallSnapshot`, which is also what a node sends that has
discarded the snapshot.  When a discarded snapshot stands for entries the node has
anyway, and no two nodes lead in one term, the match index is right.
-/

namespace DistribKV

open Consensus

namespace Raft

variable {r r' : Raft} {disk : Disk} {req : InstallSnapshotRequest}

/-- The handler takes the snapshot for one of its term but does not install it. -/
def Discards (r : Raft) (req : InstallSnapshotRequest) : Prop :=
  req.data.length ≤ maxSnapshotBytes ∧ r.currentTerm ≤ req.term ∧
    (req.lastIncludedIndex ≤ r.commitIndex ∨ r.contradicts req = true)

instance (r : Raft) (req : InstallSnapshotRequest) : Decidable (r.Discards req) :=
  inferInstanceAs (Decidable (_ ∧ _ ∧ _))

/-- A snapshot is answered from a higher term, or after it was discarded, or after
it was installed. -/
theorem installSnapshot_answer {resp : InstallSnapshotResponse}
    (called : r.installSnapshot req disk = (r', .ok resp)) :
    resp.term = r'.currentTerm ∧ req.term < r'.currentTerm ∨
      r'.currentTerm = req.term ∧
        (r.Discards req ∧ r.Yields r' ∨
          ∃ heard, r.Installs req heard ∧ r'.log = (r.install req).log ∧
            r'.logBase = req.lastIncludedIndex) := by
  cases installSnapshot_path called with
  | stale small lower => exact .inl ⟨rfl, lower⟩
  | discarded hears small current useless =>
      rw [hears]
      exact .inr ⟨hearSnapshot_currentTerm current,
        .inl ⟨⟨small, current, useless⟩, .hearSnapshot r req⟩⟩
  | installed hears installs =>
      refine .inr ⟨installs.term, .inr ⟨_, installs, ?_, rfl⟩⟩
      simp [savedSnapshot, saved, install, installs.yields.log]

end Raft

namespace Cluster

variable {m : Membership} {threshold : Int} {s s' : Cluster} {a : Action} {o : Outcome}

/-- A candidate becomes leader only in a term that nobody else has led. -/
@[reducible] def SoleLeader (s : Cluster) : Action → Prop
  | .becomeLeader i _ => (s.node i).state = .candidate →
      ∀ p ∈ s.promotions, p.2 = (s.node i).currentTerm → p.1 = i
  | _ => True

/-- A snapshot whose answer can still be recorded, as its sender leads the term of the
request, is discarded only by a node that has all entries it stands for.  The answer
itself does not tell whether the snapshot was discarded. -/
@[reducible] def DiscardsHeld (s : Cluster) : Action → Prop
  | .receive (.installSnapshot src dst req covered) _ =>
      s.Leads src req.term → (s.node dst).Discards req → covered <+: s.whole dst
  | _ => True

instance (s : Cluster) : DecidablePred s.SoleLeader := Action.decidable _

instance (s : Cluster) : DecidablePred s.DiscardsHeld := Action.decidable _

theorem OneLeader.initial (m : Membership) (threshold : Int) : (init m threshold).OneLeader := by
  intro p member
  cases member

theorem OneLeader.step (oneLeader : s.OneLeader) (sole : s.SoleLeader a)
    (effect : Effect m s a o) (applies : Applies s o s') : s'.OneLeader := by
  -- a promotion of the step is compared with the ones before it
  have newest : ∀ {i term log}, .promoted i term log ∈ o.events →
      ∀ {j log'}, .promoted j term log' ∈ s'.history → j = i := by
    intro i term log recorded j log' member
    obtain ⟨-, rfl, -, candidate, events, counted, rfl, -⟩ :=
      promoted_of_effect effect recorded
    rcases applies.mem_history.mp member with new | old
    · rw [events] at new
      cases List.mem_singleton.mp new
      rfl
    · exact sole candidate _ (mem_promotions.mpr ⟨_, old⟩) rfl
  rintro ⟨i, term⟩ first ⟨j, term'⟩ second same
  cases same
  obtain ⟨log, member⟩ := mem_promotions.mp first
  obtain ⟨log', member'⟩ := mem_promotions.mp second
  rcases applies.mem_history.mp member with new | old
  · exact (newest new member').symm
  rcases applies.mem_history.mp member' with new' | old'
  · exact newest new' member
  · exact oneLeader _ (mem_promotions.mpr ⟨_, old⟩) _ (mem_promotions.mpr ⟨_, old'⟩) rfl

/-! ## Answers and what they confirm -/

/-- Two logs begin with the same `n` entries. -/
def Shares (log other : List LogEntry) (n : Nat) : Prop :=
  ∃ common, common.length = n ∧ common <+: log ∧ common <+: other

/-- Node `p` has the first `n` entries of leader `l`, unless it is past the term of
`l`. -/
def Confirmed (s : Cluster) (l p : Int) (n : Nat) : Prop :=
  n = 0 ∨ (s.node l).currentTerm ≤ (s.node p).currentTerm ∧
    ((s.node p).currentTerm = (s.node l).currentTerm → Shares (s.whole l) (s.whole p) n)

/-- What is recorded of peers, and what is on its way to be recorded, is right. -/
structure Tracked (s : Cluster) : Prop where
  snapshots : ∀ {src dst req covered}, .installSnapshot src dst req covered ∈ s.net →
    s.Leads src req.term → covered <+: s.whole src
  appended : ∀ {src dst req resp}, .appendEntriesReply src dst req resp ∈ s.net →
    (s.ledger.leader req.term).isSome ∧ (resp.success = true → s.Leads src req.term →
      s.Confirmed src dst (req.prevLogIndex + req.entries.length))
  installed : ∀ {src dst req resp}, .installSnapshotReply src dst req resp ∈ s.net →
    (s.ledger.leader req.term).isSome ∧ (resp.term ≤ req.term → s.Leads src req.term →
      s.Confirmed src dst req.lastIncludedIndex)
  peers : ∀ {l}, (s.node l).state = .leader → ∀ peer ∈ (s.node l).peers,
    s.Confirmed l peer.id peer.matchIndex

/-- A step without a crash between two states in which logs match. -/
structure Advance (m : Membership) (threshold : Int) (s : Cluster) (a : Action)
    (o : Outcome) (s' : Cluster) : Prop where
  before : Matched m threshold s
  after : Matched m threshold s'
  effect : Effect m s a o
  applies : Applies s o s'
  vacant : ∀ term log, .promoted o.node term log ∈ o.events → s.ledger.leader term = none
  running : ∀ i, a ≠ .restart i

namespace Advance

variable {l p : Int} {term n : Nat}

theorem extension (advance : Advance m threshold s a o s') : s.ledger.Extends s'.ledger := by
  rw [ledger_of_applies advance.applies]
  exact (advance.before.matching.growsBy advance.effect advance.vacant).extension

/-- A leader led its term before the step, or it begins to in the step: then nobody
has led the term, and it knows nothing of its peers yet. -/
theorem leads_or_promoted (advance : Advance m threshold s a o s') (leads : s'.Leads l term) :
    s.Leads l term ∨ s.ledger.leader term = none ∧
      ∀ peer ∈ (s'.node l).peers, peer.matchIndex = 0 := by
  by_cases acts : l = o.node
  case neg =>
    unfold Leads at leads
    rw [advance.applies.node_of_ne acts] at leads
    exact .inl leads
  subst acts
  obtain ⟨state, here⟩ := leads
  rw [advance.applies.node_self] at state here
  cases turn_of_effect advance.effect with
  | keeps keeps =>
      obtain ⟨sameTerm, sameState⟩ := keeps.of_ne_follower (by simp [state])
      exact .inl ⟨sameState ▸ state, sameTerm ▸ here⟩
  | stands _ _ raft =>
      rcases raft with raft | raft <;> rw [raft] at state <;> cases state
  | leads _ _ raft events =>
      right
      rw [advance.applies.node_self, raft, ← here, raft]
      constructor
      · exact advance.vacant _ (s.whole o.node) (events ▸ List.mem_singleton_self _)
      · intro peer member
        obtain ⟨old, -, rfl⟩ := List.mem_map.mp member
        rfl
  | restarts action => exact absurd action (advance.running _)

/-- Who leads a term that was led before the step led it then. -/
theorem leads_before (advance : Advance m threshold s a o s')
    (led : (s.ledger.leader term).isSome) (leads : s'.Leads l term) : s.Leads l term := by
  rcases advance.leads_or_promoted leads with before | ⟨vacant, -⟩
  · exact before
  · simp [vacant] at led

/-- The term of a node does not go down. -/
theorem term_le (advance : Advance m threshold s a o s') (p : Int) :
    (s.node p).currentTerm ≤ (s'.node p).currentTerm := by
  by_cases acts : p = o.node
  · subst acts
    rw [advance.applies.node_self]
    rcases term_le_or_restart advance.effect with le | ⟨action, -⟩
    · exact le
    · exact absurd action (advance.running _)
  · rw [advance.applies.node_of_ne acts]

/-- A leader only adds to its log. -/
theorem leader_extends (advance : Advance m threshold s a o s') (before : s.Leads l term)
    (after : s'.Leads l term) : s.whole l <+: s'.whole l := by
  obtain ⟨state, rfl⟩ := before
  obtain ⟨state', same⟩ := after
  obtain ⟨leader, book⟩ := advance.before.matching.leading l state
  obtain ⟨-, book'⟩ := advance.after.matching.leading l state'
  rw [← book, ← book', same]
  exact advance.extension.book _ (by rw [leader]; rfl)

/-- What a node shares with the leader of its term it keeps. -/
theorem common_kept (advance : Advance m threshold s a o s') (tracked : Tracked s)
    (leads : s.Leads l term) (here : (s'.node p).currentTerm = term) {common : List LogEntry}
    (inLeader : common <+: s.whole l) (inPeer : common <+: s.whole p) :
    common <+: s'.whole p := by
  obtain ⟨⟨-, shaped, matching⟩, -, effect, applies, -, running⟩ := advance
  by_cases acts : p = o.node
  case neg => rwa [applies.whole_of_ne acts]
  subst acts
  rw [applies.node_self] at here
  obtain ⟨leader, book⟩ := matching.leading l leads.1
  rw [leads.2] at leader book
  rw [applies.whole_self]
  cases logTurn_of_effect effect with
  | keeps same folded => rwa [folded, same.log]
  | elects _ raft folded => rwa [raft, folded]
  | writes _ _ _ same _ _ _ folded =>
      rw [folded, same.log, ← List.append_assoc]
      exact inPeer.trans (List.prefix_append _ _)
  | merges inNet accepts same sameTerm _ folded =>
      rw [folded, same.log]
      simp only
      rw [matching.accepted shaped inNet accepts, ← sameTerm, here, book]
      exact prefix_merge inPeer inLeader (List.take_prefix _ _)
  | @installs src req covered heard inNet installs same sameTerm _ folded =>
      obtain ⟨moves, merged⟩ := matching.installed shaped inNet installs
      have sender : src = l := by
        have := (matching.snapshots inNet).1
        rw [← sameTerm, here, leader] at this
        exact (Option.some.inj this).symm
      rw [folded, if_neg moves, same.log, merged]
      refine prefix_merge inPeer inLeader ?_
      rw [← sender]
      exact tracked.snapshots inNet ⟨sender ▸ leads.1, by rw [sender, leads.2, ← here, sameTerm]⟩
  | compacts _ above _ _ same _ folded =>
      rw [folded, same.log]
      exact (shaped.node o.node).compact_whole above ▸ inPeer
  | restarts action => exact absurd action (running _)

/-- A confirmation stays right as long as the leader leads. -/
theorem confirmed (advance : Advance m threshold s a o s') (tracked : Tracked s)
    (before : s.Leads l term) (after : s'.Leads l term) (confirmed : s.Confirmed l p n) :
    s'.Confirmed l p n := by
  rcases confirmed with zero | ⟨current, shares⟩
  · exact .inl zero
  have le := advance.term_le p
  right
  rw [before.2] at current shares
  rw [after.2]
  refine ⟨current.trans le, fun same => ?_⟩
  obtain ⟨common, length, inLeader, inPeer⟩ := shares (by omega)
  exact ⟨common, length, inLeader.trans (advance.leader_extends before after),
    advance.common_kept tracked before same inLeader inPeer⟩

end Advance

/-! ## How answers come about -/

/-- Delivery of a snapshot, with the answer of its handler. -/
theorem installSnapshot_of_step {src dst : Int} {req : InstallSnapshotRequest}
    {covered : List LogEntry} {disk : Disk}
    (stepped : s.step m (.receive (.installSnapshot src dst req covered) disk) = some s') :
    ∃ reply, (s.node dst).installSnapshot req disk = (s'.node dst, reply) ∧
      (s'.folded dst = if (s'.node dst).logBase = (s.node dst).logBase then s.folded dst
        else covered) ∧
      ∀ packet ∈ s'.net, packet ∈ s.net ∨
        ∃ resp, reply = .ok resp ∧ packet = .installSnapshotReply src dst req resp := by
  simp only [step] at stepped
  split at stepped
  next inNet =>
    simp only [deliver] at stepped
    cases called : (s.node dst).installSnapshot req disk with
    | mk r reply =>
        rw [called] at stepped
        have kept : ∀ packet ∈ s.net.erase (.installSnapshot src dst req covered),
            packet ∈ s.net := fun _ => List.mem_of_mem_erase
        cases reply with
        | error err =>
            cases stepped
            refine ⟨.error err, ?_, ?_, ?_⟩
            · simp [setNode]
            · simp only [setNode, Function.update_self]
              split <;> simp [setFolded]
            · intro packet member
              left
              split at member <;> exact kept packet member
        | ok resp =>
            cases stepped
            refine ⟨.ok resp, ?_, ?_, ?_⟩
            · simp [setNode]
            · simp only [setNode, Function.update_self]
              split <;> simp [setFolded]
            · intro packet member
              rcases List.mem_cons.mp member with rfl | member
              · exact .inr ⟨resp, rfl, rfl⟩
              · left
                split at member <;> exact kept packet member
  · cases stepped

/-- An answer to a snapshot was there before the step, or the step delivers the
snapshot. -/
theorem installReply_of_step (stepped : s.step m a = some s') {src dst : Int}
    {req : InstallSnapshotRequest} {resp : InstallSnapshotResponse}
    (inNet : .installSnapshotReply src dst req resp ∈ s'.net) :
    .installSnapshotReply src dst req resp ∈ s.net ∨
      ∃ covered disk, a = .receive (.installSnapshot src dst req covered) disk ∧
        .installSnapshot src dst req covered ∈ s.net ∧
        (s.node dst).installSnapshot req disk = (s'.node dst, .ok resp) := by
  have delivered : ∀ {src' dst' req' covered disk},
      s.step m (.receive (.installSnapshot src' dst' req' covered) disk) = some s' →
      .installSnapshot src' dst' req' covered ∈ s.net →
      .installSnapshotReply src dst req resp ∈ s.net ∨
        ∃ covered' disk', Action.receive (.installSnapshot src' dst' req' covered) disk =
            .receive (.installSnapshot src dst req covered') disk' ∧
          .installSnapshot src dst req covered' ∈ s.net ∧
          (s.node dst).installSnapshot req disk' = (s'.node dst, .ok resp) := by
    intro src' dst' req' covered disk stepped sent
    obtain ⟨reply, called, -, packets⟩ := installSnapshot_of_step stepped
    rcases packets _ inNet with old | ⟨answer, rfl, same⟩
    · exact .inl old
    · cases same
      exact .inr ⟨covered, disk, rfl, sent, called⟩
  obtain ⟨o, effect, applies⟩ := effect_of_step stepped
  rcases applies.mem_net inNet with new | old
  case inr => exact .inl old
  cases effect with
  | duplicate held =>
      cases List.mem_singleton.mp new
      exact .inl held
  | answerInstall sent => exact delivered stepped sent
  | install sent => exact delivered stepped sent
  | _ => simp at new

/-- A successful answer to `AppendEntries` was there before the step, or the step
delivers the request. -/
theorem appendReply_of_effect (effect : Effect m s a o) {src dst : Int}
    {req : AppendEntriesRequest} {resp : AppendEntriesResponse}
    (sent : .appendEntriesReply src dst req resp ∈ o.packets) :
    .appendEntriesReply src dst req resp ∈ s.net ∨
      .appendEntries src dst req ∈ s.net ∧ (resp.success = true →
        dst = o.node ∧ o.raft.currentTerm = req.term ∧ o.folded = s.folded dst ∧
        ∃ modified, (s.node dst).Accepts req o.raft.log modified) := by
  cases effect with
  | duplicate held =>
      cases List.mem_singleton.mp sent
      exact .inl held
  | refuseAppend inNet =>
      cases List.mem_singleton.mp sent
      exact .inr ⟨inNet, by rintro ⟨⟩⟩
  | append inNet _ term accepts stored =>
      cases List.mem_singleton.mp sent
      subst stored
      exact .inr ⟨inNet, fun _ => ⟨rfl, term, rfl, _, accepts⟩⟩
  | install _ _ _ replies =>
      obtain ⟨_, impossible⟩ := replies _ sent
      cases impossible
  | _ => simp at sent

/-! ## The theorem -/

namespace Tracked

theorem initial (m : Membership) (threshold : Int) : Tracked (init m threshold) where
  snapshots inNet := by simp [init] at inNet
  appended inNet := by simp [init] at inNet
  installed inNet := by simp [init] at inNet
  peers leads := by
    simp [init, Raft.newRaft, Raft.loadPersistedState, Raft.fresh, Raft.start] at leads

/-- A snapshot on its way to a node is a part of the log of its sender. -/
theorem snapshots_step (tracked : Tracked s) (advance : Advance m threshold s a o s')
    {src dst : Int} {req : InstallSnapshotRequest} {covered : List LogEntry}
    (inNet : .installSnapshot src dst req covered ∈ s'.net) (leads : s'.Leads src req.term) :
    covered <+: s'.whole src := by
  have matching := advance.before.matching
  have old : .installSnapshot src dst req covered ∈ s.net → covered <+: s'.whole src := by
    intro held
    have before := advance.leads_before (by rw [(matching.snapshots held).1]; rfl) leads
    exact (tracked.snapshots held before).trans (advance.leader_extends before leads)
  rcases advance.applies.mem_net inNet with new | held
  case inr => exact old held
  cases advance.effect with
  | duplicate held =>
      cases List.mem_singleton.mp new
      exact old held
  | sendInstallSnapshot =>
      cases List.mem_singleton.mp new
      rw [advance.applies.whole_self]
      exact List.prefix_append _ _
  | install _ _ _ replies =>
      obtain ⟨_, impossible⟩ := replies _ new
      cases impossible
  | _ => simp at new

/-- A request that was accepted leaves the entries it stands for in the log. -/
theorem appended_step (tracked : Tracked s) (advance : Advance m threshold s a o s')
    {src dst : Int} {req : AppendEntriesRequest} {resp : AppendEntriesResponse}
    (inNet : .appendEntriesReply src dst req resp ∈ s'.net) :
    (s'.ledger.leader req.term).isSome ∧ (resp.success = true → s'.Leads src req.term →
      s'.Confirmed src dst (req.prevLogIndex + req.entries.length)) := by
  obtain ⟨-, shaped, matching⟩ := advance.before
  have answered : .appendEntriesReply src dst req resp ∈ s.net ∨ _ :=
    (advance.applies.mem_net inNet).elim (appendReply_of_effect advance.effect) .inl
  rcases answered with held | ⟨sent, accepted⟩
  · obtain ⟨led, confirmed⟩ := tracked.appended held
    refine ⟨advance.extension.led led, fun success leads => ?_⟩
    have before := advance.leads_before led leads
    exact advance.confirmed tracked before leads (confirmed success before)
  · obtain ⟨led, slice⟩ := matching.requests sent
    refine ⟨advance.extension.led led, fun success leads => .inr ?_⟩
    obtain ⟨rfl, term, folded, modified, accepts⟩ := accepted success
    have before := advance.leads_before led leads
    obtain ⟨-, book⟩ := matching.leading src before.1
    rw [before.2] at book
    rw [leads.2, advance.applies.node_self, term]
    refine ⟨le_rfl, fun _ => ⟨(s.ledger.book req.term).take _,
      List.length_take_of_le slice.length_le, ?_, ?_⟩⟩
    · rw [book]
      exact (List.take_prefix _ _).trans (advance.leader_extends before leads)
    · rw [advance.applies.whole_self, folded, matching.accepted shaped sent accepts]
      exact part_prefix_merge _ _

/-- A snapshot that was answered in the term of its sender has left the entries it
stands for in the log, or was discarded by a node that has them. -/
theorem installed_step (tracked : Tracked s) (advance : Advance m threshold s a o s')
    (held : s.DiscardsHeld a) (stepped : s.step m a = some s') {src dst : Int}
    {req : InstallSnapshotRequest} {resp : InstallSnapshotResponse}
    (inNet : .installSnapshotReply src dst req resp ∈ s'.net) :
    (s'.ledger.leader req.term).isSome ∧ (resp.term ≤ req.term → s'.Leads src req.term →
      s'.Confirmed src dst req.lastIncludedIndex) := by
  obtain ⟨-, shaped, matching⟩ := advance.before
  rcases installReply_of_step stepped inNet with old | ⟨covered, disk, rfl, sent, called⟩
  · obtain ⟨led, confirmed⟩ := tracked.installed old
    refine ⟨advance.extension.led led, fun current leads => ?_⟩
    have before := advance.leads_before led leads
    exact advance.confirmed tracked before leads (confirmed current before)
  have led : (s.ledger.leader req.term).isSome := by rw [(matching.snapshots sent).1]; rfl
  refine ⟨advance.extension.led led, fun current leads => .inr ?_⟩
  have before := advance.leads_before led leads
  have inLeader := (tracked.snapshots sent before).trans (advance.leader_extends before leads)
  obtain ⟨-, length, -⟩ := shaped.snapshots sent
  rcases Raft.installSnapshot_answer called with ⟨answer, higher⟩ | ⟨term, outcome⟩
  · omega
  rw [leads.2, term]
  refine ⟨le_rfl, fun _ => ⟨covered, length, inLeader, ?_⟩⟩
  obtain ⟨reply, called', folded, -⟩ := installSnapshot_of_step stepped
  rcases outcome with ⟨discards, yields⟩ | ⟨heard, installs, log, base⟩
  · rw [yields.logBase, if_pos rfl] at folded
    rw [whole, folded, yields.log]
    exact held before discards
  · obtain ⟨moves, merged⟩ := matching.installed shaped sent installs
    rw [base, if_neg moves] at folded
    rw [whole, folded, log, merged]
    exact part_prefix_merge _ _

/-- What is recorded was confirmed. -/
theorem peers_step (tracked : Tracked s) (advance : Advance m threshold s a o s')
    (stepped : s.step m a = some s') {l : Int} (state : (s'.node l).state = .leader)
    {peer : Peer} (member : peer ∈ (s'.node l).peers) :
    s'.Confirmed l peer.id peer.matchIndex := by
  have leads : s'.Leads l (s'.node l).currentTerm := ⟨state, rfl⟩
  rcases advance.leads_or_promoted leads with before | ⟨-, zero⟩
  case inr => exact .inl (zero peer member)
  apply advance.confirmed tracked before leads
  cases matchSource_of_step stepped member with
  | reset zero => exact .inl zero
  | kept known id index =>
      rw [← id, index]
      exact tracked.peers before.1 _ known
  | appended inNet success leads index =>
      rw [index]
      exact (tracked.appended inNet).2 success leads
  | installed inNet current leads index =>
      rw [index]
      exact (tracked.installed inNet).2 current leads

theorem step (tracked : Tracked s) (advance : Advance m threshold s a o s')
    (held : s.DiscardsHeld a) (stepped : s.step m a = some s') : Tracked s' where
  snapshots := tracked.snapshots_step advance
  appended := tracked.appended_step advance
  installed := tracked.installed_step advance held stepped
  peers state _ := tracked.peers_step advance stepped state

end Tracked

/-- Logs match, one node leads in a term, and leaders are right about their
peers. -/
theorem tracked_of_run
    (run : Run (step m) (fun s a => CrashFree s a ∧ s.SoleLeader a ∧ s.DiscardsHeld a)
      (init m threshold) s) : s.OneLeader ∧ Matched m threshold s ∧ Tracked s := by
  apply run.invariant
  · exact ⟨.initial m threshold, .initial m threshold, .initial m threshold⟩
  rintro t u a ⟨oneLeader, matched, tracked⟩ ⟨crashFree, sole, held⟩ stepped
  obtain ⟨o, effect, applies⟩ := effect_of_step stepped
  have oneLeader' := oneLeader.step sole effect applies
  have matched' := matched.step crashFree oneLeader' stepped
  have advance : Advance m threshold t a o u :=
    { before := matched
      after := matched'
      effect := effect
      applies := applies
      vacant := fun _ _ recorded => oneLeader'.vacant matched.matching effect applies recorded
      running := by
        rintro i rfl
        exact absurd crashFree (by simp [CrashFree, Action.isRestart]) }
  exact ⟨oneLeader', matched', tracked.step advance held stepped⟩

/-- The match index is sound: in every run without crashes in which candidates
become leaders only in terms nobody else has led, and snapshots of a leader are
discarded only by nodes that have the entries anyway, a peer in the term of the leader
agrees with it at every index up to the match index. -/
theorem matchIndex_sound
    (run : Run (step m) (fun s a => CrashFree s a ∧ s.SoleLeader a ∧ s.DiscardsHeld a)
      (init m threshold) s) {l : Int} (leads : (s.node l).state = .leader) {peer : Peer}
    (known : peer ∈ (s.node l).peers)
    (sameTerm : (s.node peer.id).currentTerm = (s.node l).currentTerm) {index : Nat}
    (positive : 1 ≤ index) (matched : index ≤ peer.matchIndex) :
    ∃ entry, (s.whole l)[index - 1]? = some entry ∧
      (s.whole peer.id)[index - 1]? = some entry := by
  obtain ⟨-, -, tracked⟩ := tracked_of_run run
  rcases tracked.peers leads peer known with zero | ⟨-, shares⟩
  · omega
  obtain ⟨common, length, inLeader, inPeer⟩ := shares sameTerm
  have below : index - 1 < common.length := by omega
  exact ⟨_, List.prefix_iff_getElem?.mp inLeader _ below,
    List.prefix_iff_getElem?.mp inPeer _ below⟩

/-- Node `1` is elected in term 2, commits a command with node `2`, folds it into a
snapshot and sends that to node `0`. -/
def transfer : List Action :=
  [.electionTimeout 1 {}, .campaign 1 2, .sendRequestVote 1 2 2,
    .receive (.requestVote 1 2 ⟨2, 1, 0, 0⟩) {},
    .receive (.requestVoteReply 1 2 2 ⟨2, true⟩) {}, .becomeLeader 1 2,
    .replicate 1 [2] {}, .sendAppendEntries 1 2 2 0,
    .receive (.appendEntries 1 2 ⟨2, 1, 0, 0, [⟨1, 2, [2]⟩], 0⟩) {},
    .receive (.appendEntriesReply 1 2 ⟨2, 1, 0, 0, [⟨1, 2, [2]⟩], 0⟩ ⟨2, true⟩) {},
    .takeEntry 1, .sendEntry 1, .consume 1, .snapshot 1 1 [9] {},
    .sendAppendEntries 1 0 2 0, .sendInstallSnapshot 1 0 2,
    .receive (.installSnapshot 1 0 ⟨2, 1, 1, 2, [9]⟩ [⟨1, 2, [2]⟩]) {},
    .receive (.installSnapshotReply 1 0 ⟨2, 1, 1, 2, [9]⟩ ⟨2⟩) {}]

/-- A snapshot that node `0` installs is recorded, and node `0` has its entry. -/
theorem matchIndex_sound_transfer :
    ∃ s, Run (step threeNodes) (fun s a => CrashFree s a ∧ s.SoleLeader a ∧ s.DiscardsHeld a)
        (init threeNodes 1) s ∧ (s.node 1).peers.map (·.matchIndex) = [1, 1] ∧
      ∃ entry, (s.whole 1)[0]? = some entry ∧ (s.whole 0)[0]? = some entry := by
  have reached : ∃ s, Run (step threeNodes)
      (fun s a => CrashFree s a ∧ s.SoleLeader a ∧ s.DiscardsHeld a) (init threeNodes 1) s ∧
      (s.node 1).state = .leader ∧ (s.node 0).currentTerm = (s.node 1).currentTerm ∧
      (s.node 1).peers.map (·.matchIndex) = [1, 1] ∧
      ∃ peer ∈ (s.node 1).peers, peer.id = 0 ∧ peer.matchIndex = 1 :=
    exists_run_of_perform (election ++ transfer) _ (by decide +kernel)
  obtain ⟨s, run, leads, sameTerm, recorded, peer, known, id, index⟩ := reached
  have agree := matchIndex_sound run leads known (id.symm ▸ sameTerm) le_rfl index.ge
  exact ⟨s, run, recorded, id ▸ agree⟩

/-- When node `0` has appended an entry of its own in term 1, it discards the
snapshot; the answer is recorded all the same. -/
theorem discarded_snapshot_recorded :
    ∃ s, Run (step threeNodes) CrashFree (init threeNodes 1) s ∧
      (s.node 1).state = .leader ∧ (s.node 0).currentTerm = (s.node 1).currentTerm ∧
      (∃ peer ∈ (s.node 1).peers, peer.id = 0 ∧ peer.matchIndex = 1) ∧
      s.whole 1 = [⟨1, 2, [2]⟩] ∧ s.whole 0 = [⟨1, 1, [1]⟩] :=
  exists_run_of_perform (election ++ .replicate 0 [1] {} :: transfer) _ (by decide +kernel)

end Cluster

end DistribKV
