import DistribKV.Cluster.ElectionSafety
import DistribKV.Cluster.Ledger

/-!
# Log matching

In every run in which no two nodes lead in one term, all whole logs are rooted
in the ledger of the run, and so is everything that is on its way: a request to
append is a part of the book of its term, however old it is and however much the
leader has written since, and a snapshot stands for a rooted log.
-/

namespace DistribKV

namespace Cluster

open Consensus

/-- Logs and messages agree with the ledger. -/
structure Matching (s : Cluster) : Prop where
  sound : s.ledger.Sound LogEntry.term
  rooted : ∀ i, s.ledger.Rooted LogEntry.term (s.whole i)
  /-- The log of a leader is the book of its term. -/
  leading : ∀ i, (s.node i).state = .leader →
    s.ledger.leader (s.node i).currentTerm = some i ∧
      s.ledger.book (s.node i).currentTerm = s.whole i
  /-- Who has led a term is past standing for election in it. -/
  led : ∀ i term, s.ledger.leader term = some i → term ≤ (s.node i).currentTerm ∧
    (term = (s.node i).currentTerm → (s.node i).state ≠ .candidate)
  requests : ∀ {src dst req}, .appendEntries src dst req ∈ s.net →
    (s.ledger.leader req.term).isSome ∧ Slice (s.ledger.book req.term) req
  snapshots : ∀ {src dst req covered}, .installSnapshot src dst req covered ∈ s.net →
    s.ledger.leader req.term = some src ∧ s.ledger.Rooted LogEntry.term covered
  transfers : ∀ {i peer term}, .sendInstallSnapshot i peer term ∈ s.tasks →
    s.ledger.leader term = some i

/-- How the ledger changes when node `i` acts: books of other leaders stay, and
nobody else takes the lead. -/
structure GrowsBy (i : Int) (g h : Ledger Int LogEntry) : Prop where
  extension : g.Extends h
  books : ∀ term j, g.leader term = some j → j ≠ i → h.book term = g.book term
  leaders : ∀ term j, h.leader term = some j → j ≠ i → g.leader term = some j

/-- What a node must have stored to keep its place after a restart. -/
structure Restartable (s : Cluster) (i : Int) : Prop where
  recoverable : Recoverable (s.node i)
  rooted : s.ledger.Rooted LogEntry.term (s.node i).persister.log
  led : ∀ term, s.ledger.leader term = some i → term ≤ (s.node i).persister.term

variable {m : Membership} {threshold : Int} {s s' : Cluster} {a : Action} {o : Outcome}

theorem GrowsBy.refl (i : Int) (g : Ledger Int LogEntry) : GrowsBy i g g :=
  ⟨.refl g, fun _ _ _ _ => rfl, fun _ _ held _ => held⟩

theorem GrowsBy.elect {i : Int} {g : Ledger Int LogEntry} {term : Nat}
    (vacant : g.leader term = none) (log : List LogEntry) :
    GrowsBy i g (g.elect term i log) where
  extension := Ledger.extends_elect i log vacant
  books term' j held ne := by
    refine Ledger.elect_book_of_ne i ?_
    rintro rfl
    rw [vacant] at held
    cases held
  leaders term' j held ne := by
    by_cases same : term' = term
    · subst same
      rw [Ledger.elect_leader_self] at held
      exact absurd (Option.some.inj held).symm ne
    · rwa [Ledger.elect_leader_of_ne i same] at held

theorem GrowsBy.write {i : Int} {g : Ledger Int LogEntry} {term : Nat}
    (leads : g.leader term = some i) (entry : LogEntry) :
    GrowsBy i g (g.write term entry) where
  extension := Ledger.extends_write term entry
  books term' j held ne := by
    refine Ledger.write_book_of_ne entry ?_
    rintro rfl
    rw [leads] at held
    exact ne (Option.some.inj held).symm
  leaders _ _ held _ := held

theorem ledger_of_applies (applies : Applies s o s') :
    s'.ledger = ledgerOf (o.events ++ s.history) := by
  rw [ledger, applies.history]

/-- Rooted logs agree with each other. -/
theorem agrees_of_rooted {g : Ledger Int LogEntry} {log book : List LogEntry}
    (rooted : g.Rooted LogEntry.term log) (bookRooted : g.Rooted LogEntry.term book) :
    Agrees log book :=
  fun _ _ _ inLog inBook sameTerm => rooted.take_eq_take bookRooted inLog inBook sameTerm

namespace Matching

theorem initial (m : Membership) (threshold : Int) : Matching (init m threshold) where
  sound := .empty
  rooted _ := .nil
  leading _ leads := by
    simp [init, Raft.newRaft, Raft.loadPersistedState, Raft.fresh, Raft.start] at leads
  led _ _ held := by cases held
  requests inNet := by simp [init] at inNet
  snapshots inNet := by simp [init] at inNet
  transfers pending := by simp [init] at pending

/-- A step that promotes nobody in a term already led makes the ledger grow. -/
theorem growsBy (matching : Matching s) (effect : Effect m s a o)
    (vacant : ∀ term log, .promoted o.node term log ∈ o.events →
      s.ledger.leader term = none) :
    GrowsBy o.node s.ledger (ledgerOf (o.events ++ s.history)) := by
  rcases ledger_of_effect effect with
    same | ⟨entry, leads, term, written⟩ | ⟨-, recorded, elected⟩
  · exact same ▸ .refl _ _
  · rw [written, term]
    exact .write (matching.leading _ leads).1 _
  · rw [elected]
    exact .elect (vacant _ _ recorded) _

/-- The books stay sound in such a step. -/
theorem sound_of_effect (matching : Matching s) (effect : Effect m s a o)
    (vacant : ∀ term log, .promoted o.node term log ∈ o.events →
      s.ledger.leader term = none) :
    (ledgerOf (o.events ++ s.history)).Sound LogEntry.term := by
  rcases ledger_of_effect effect with
    same | ⟨entry, leads, term, written⟩ | ⟨-, recorded, elected⟩
  · exact same ▸ matching.sound
  · rw [written]
    refine matching.sound.write ?_ rfl
    rw [term, (matching.leading _ leads).1]
    rfl
  · rw [elected]
    exact matching.sound.elect _ (vacant _ _ recorded) (matching.rooted _)

/-- A node that accepts a request merges its whole log with a part of the book. -/
theorem accepted (shaped : Shaped s) (matching : Matching s) {src i : Int}
    {req : AppendEntriesRequest} {log : List LogEntry} {modified : Bool}
    (inNet : .appendEntries src i req ∈ s.net)
    (accepts : (s.node i).Accepts req log modified) :
    s.folded i ++ log = merge (s.whole i)
      ((s.ledger.book req.term).take (req.prevLogIndex + req.entries.length)) :=
  (accepts.merge (shaped.based i) (matching.requests inNet).2
    (agrees_of_rooted (matching.rooted i) (matching.sound.rooted req.term))).1

/-- A node that installs a snapshot moves its base, and merges its whole log with
what the snapshot stands for. -/
theorem installed (shaped : Shaped s) (matching : Matching s) {src i : Int}
    {req : InstallSnapshotRequest} {covered : List LogEntry} {heard : Raft}
    (inNet : .installSnapshot src i req covered ∈ s.net)
    (installs : (s.node i).Installs req heard) :
    req.lastIncludedIndex ≠ (s.node i).logBase ∧
      covered ++ ((s.node i).install req).log = merge (s.whole i) covered := by
  have shape := shaped.node i
  obtain ⟨-, length, lastTerm⟩ := shaped.snapshots inNet
  have above : (s.node i).logBase < req.lastIncludedIndex :=
    shape.committed.trans_lt installs.fresh
  exact ⟨above.ne', Raft.install_merge shape.based shape.retained above length lastTerm
    (agrees_of_rooted (matching.rooted i) (matching.snapshots inNet).2) installs.agrees⟩

/-- What leading a term says about a node survives its steps. -/
theorem led_of_effect (matching : Matching s) (effect : Effect m s a o)
    (restartable : ∀ i, a = .restart i → s.Restartable i) {term : Nat}
    (led : (ledgerOf (o.events ++ s.history)).leader term = some o.node) :
    term ≤ o.raft.currentTerm ∧
      (term = o.raft.currentTerm → o.raft.state ≠ .candidate) := by
  -- either the node led the term before, or it has just begun to
  rcases leader_of_effect effect led with old | ⟨raft, rfl⟩
  case inr =>
    rw [raft]
    exact ⟨le_rfl, fun _ => by simp [Raft.enterLeader]⟩
  obtain ⟨le, past⟩ := matching.led o.node term old
  cases turn_of_effect effect with
  | keeps keeps =>
      have termLe := keeps.term_le
      refine ⟨le.trans termLe, fun here => ?_⟩
      rw [keeps.same (by omega)]
      exact past (by omega)
  | stands _ _ raft =>
      have next : o.raft.currentTerm = (s.node o.node).currentTerm + 1 := by
        rcases raft with raft | raft <;> simp [raft, Raft.enterCandidate, Raft.saved]
      exact ⟨by omega, fun here => by omega⟩
  | leads _ _ raft =>
      rw [raft]
      exact ⟨le, fun _ => by simp [Raft.enterLeader]⟩
  | restarts action raft =>
      rw [raft, Raft.restart_currentTerm, Raft.restart_state]
      exact ⟨(restartable _ action).led term old, by simp⟩

/-- The acting node keeps a rooted log, and as a leader it keeps writing its
book. -/
theorem node_of_effect (static : Static m threshold s) (shaped : Shaped s)
    (matching : Matching s) (effect : Effect m s a o)
    (vacant : ∀ term log, .promoted o.node term log ∈ o.events →
      s.ledger.leader term = none)
    (restartable : ∀ i, a = .restart i → s.Restartable i) :
    (ledgerOf (o.events ++ s.history)).Rooted LogEntry.term (o.folded ++ o.raft.log) ∧
      (o.raft.state = .leader →
        (ledgerOf (o.events ++ s.history)).leader o.raft.currentTerm = some o.node ∧
          (ledgerOf (o.events ++ s.history)).book o.raft.currentTerm =
            o.folded ++ o.raft.log) := by
  have rooted := matching.rooted o.node
  have grows := matching.growsBy effect vacant
  cases logTurn_of_effect effect with
  | keeps same folded ledger role =>
      rw [ledger, folded, same.log]
      refine ⟨rooted, fun leads => ?_⟩
      obtain ⟨wasLeader, term⟩ := role leads
      rw [term]
      exact matching.leading _ wasLeader
  | elects _ raft folded _ ledger =>
      rw [ledger] at grows ⊢
      rw [raft, folded]
      exact ⟨rooted.extend grows.extension, fun _ =>
        ⟨Ledger.elect_leader_self _ _, Ledger.elect_book_self _ _⟩⟩
  | @writes entry leads _ term same sameTerm _ _ folded ledger =>
      obtain ⟨leader, book⟩ := matching.leading _ leads
      have sound := matching.sound.write (by rw [leader]; rfl) term
      have written : (s.ledger.write (s.node o.node).currentTerm entry).book
          (s.node o.node).currentTerm = o.folded ++ o.raft.log := by
        rw [Ledger.write_book_self, book, folded, same.log, whole, List.append_assoc]
      rw [ledger, sameTerm, term]
      exact ⟨written ▸ sound.rooted _, fun _ => ⟨leader, written⟩⟩
  | @merges src req log modified inNet accepts same sameTerm role folded ledger =>
      have bookRooted := matching.sound.rooted req.term
      rw [ledger, folded, same.log]
      simp only
      rw [matching.accepted shaped inNet accepts]
      refine ⟨rooted.merge (bookRooted.of_isPrefix (List.take_prefix _ _)), fun leads => ?_⟩
      -- a leader is sent parts of its own book only, which it has already
      obtain ⟨wasLeader, term⟩ := role leads
      obtain ⟨leader, book⟩ := matching.leading _ wasLeader
      rw [← term, sameTerm] at leader book
      rw [sameTerm, merge, if_pos]
      · exact ⟨leader, book⟩
      · rw [book]
        exact List.take_prefix _ _
  | @installs src req covered heard inNet installs same sameTerm role folded ledger =>
      obtain ⟨leader, coveredRooted⟩ := matching.snapshots inNet
      obtain ⟨moves, merged⟩ := matching.installed shaped inNet installs
      rw [ledger, folded, if_neg moves, same.log, merged]
      refine ⟨rooted.merge coveredRooted, fun leads => ?_⟩
      -- nobody sends a snapshot to itself
      obtain ⟨wasLeader, term⟩ := role leads
      have self := (matching.leading _ wasLeader).1
      rw [← term, sameTerm, leader] at self
      exact absurd (Option.some.inj self).symm (static.net _ inNet).2.2
  | compacts _ above _ _ same role folded ledger =>
      have whole_eq : o.folded ++ o.raft.log = s.whole o.node := by
        rw [folded, same.log]
        exact (shaped.node o.node).compact_whole above
      rw [ledger, whole_eq]
      refine ⟨rooted, fun leads => ?_⟩
      rw [role.2]
      exact matching.leading _ (role.1 ▸ leads)
  | restarts action raft folded ledger =>
      obtain ⟨⟨noSnapshot, -⟩, stored, -⟩ := restartable _ action
      have restarted : (s.node o.node).restart = _ :=
        congrArg Raft.start (Raft.newRaft_of_noSnapshot (s.node o.node).config noSnapshot)
      have base : (s.node o.node).restart.logBase = 0 := by rw [restarted]; rfl
      rw [ledger, folded, raft, base, List.take_zero, List.nil_append, Raft.restart_log,
        Raft.restart_state]
      exact ⟨stored, by simp⟩

theorem requests_of_effect (shaped : Shaped s) (matching : Matching s)
    (effect : Effect m s a o) {src dst : Int} {req : AppendEntriesRequest}
    (sent : .appendEntries src dst req ∈ o.packets) :
    (s.ledger.leader req.term).isSome ∧ Slice (s.ledger.book req.term) req := by
  cases effect with
  | duplicate inNet =>
      cases List.mem_singleton.mp sent
      exact matching.requests inNet
  | sendAppendEntries _ outgoing =>
      cases List.mem_singleton.mp sent
      obtain ⟨leads, rfl, nextIdx, positive, rfl⟩ := Raft.sendAppendEntries_request outgoing
      obtain ⟨leader, book⟩ := matching.leading _ leads
      rw [Raft.appendEntriesRequest_term, leader, book]
      exact ⟨rfl, Raft.appendEntriesRequest_slice (shaped.based src) positive _ _⟩
  | install _ _ _ replies =>
      obtain ⟨_, impossible⟩ := replies _ sent
      cases impossible
  | _ => simp at sent

theorem snapshots_of_effect (matching : Matching s) (effect : Effect m s a o)
    {src dst : Int} {req : InstallSnapshotRequest} {covered : List LogEntry}
    (sent : .installSnapshot src dst req covered ∈ o.packets) :
    s.ledger.leader req.term = some src ∧ s.ledger.Rooted LogEntry.term covered := by
  cases effect with
  | duplicate inNet =>
      cases List.mem_singleton.mp sent
      exact matching.snapshots inNet
  | sendInstallSnapshot pending outgoing =>
      cases List.mem_singleton.mp sent
      rw [Raft.sendInstallSnapshot_request outgoing]
      exact ⟨matching.transfers pending,
        (matching.rooted src).of_isPrefix (List.prefix_append _ _)⟩
  | install _ _ _ replies =>
      obtain ⟨_, impossible⟩ := replies _ sent
      cases impossible
  | _ => simp at sent

theorem transfers_of_effect (matching : Matching s) (effect : Effect m s a o)
    {i peer : Int} {term : Nat} (added : .sendInstallSnapshot i peer term ∈ o.tasks) :
    s.ledger.leader term = some i := by
  cases effect with
  | startInstall _ outgoing =>
      cases List.mem_singleton.mp added
      obtain ⟨leads, rfl⟩ := Raft.sendAppendEntries_installSnapshot outgoing
      exact (matching.leading _ leads).1
  | _ => simp at added

/-- Logs keep matching in every step that promotes nobody in a term already led
and restarts nobody that has lost its log. -/
theorem of_effect (static : Static m threshold s) (shaped : Shaped s)
    (matching : Matching s) (effect : Effect m s a o) (applies : Applies s o s')
    (vacant : ∀ term log, .promoted o.node term log ∈ o.events →
      s.ledger.leader term = none)
    (restartable : ∀ i, a = .restart i → s.Restartable i) : Matching s' := by
  have grows := matching.growsBy effect vacant
  obtain ⟨rooted, leading⟩ :=
    matching.node_of_effect static shaped effect vacant restartable
  have ledger := ledger_of_applies applies
  rw [← ledger] at grows rooted leading
  have extension := grows.extension
  refine
    { sound := ?_
      rooted := fun i => ?_
      leading := fun i leads => ?_
      led := fun i term held => ?_
      requests := fun {src dst req} inNet => ?_
      snapshots := fun inNet => ?_
      transfers := fun pending => ?_ }
  · rw [ledger]
    exact matching.sound_of_effect effect vacant
  · by_cases acts : i = o.node
    · rw [acts, applies.whole_self]
      exact rooted
    · rw [applies.whole_of_ne acts]
      exact (matching.rooted i).extend extension
  · by_cases acts : i = o.node
    · subst acts
      rw [applies.node_self] at leads ⊢
      rw [applies.whole_self]
      exact leading leads
    · rw [applies.node_of_ne acts] at leads ⊢
      obtain ⟨leader, book⟩ := matching.leading i leads
      rw [applies.whole_of_ne acts, ← book]
      exact ⟨extension.leader _ _ leader, grows.books _ _ leader acts⟩
  · by_cases acts : i = o.node
    · subst acts
      rw [applies.node_self]
      rw [ledger] at held
      exact matching.led_of_effect effect restartable held
    · rw [applies.node_of_ne acts]
      exact matching.led i term (grows.leaders term i held acts)
  · have old : (s.ledger.leader req.term).isSome ∧ Slice (s.ledger.book req.term) req := by
      rcases applies.mem_net inNet with new | old
      · exact matching.requests_of_effect shaped effect new
      · exact matching.requests old
    exact ⟨extension.led old.1, old.2.extend (extension.book _ old.1)⟩
  · rcases applies.mem_net inNet with new | old
    · obtain ⟨leader, coveredRooted⟩ := matching.snapshots_of_effect effect new
      exact ⟨extension.leader _ _ leader, coveredRooted.extend extension⟩
    · obtain ⟨leader, coveredRooted⟩ := matching.snapshots old
      exact ⟨extension.leader _ _ leader, coveredRooted.extend extension⟩
  · rcases applies.mem_tasks pending with new | old
    · exact extension.leader _ _ (matching.transfers_of_effect effect new)
    · exact extension.leader _ _ (matching.transfers old)

end Matching

/-! ## The theorem -/

/-- No node crashes. -/
def CrashFree (_ : Cluster) (a : Action) : Prop := a.isRestart = false

instance (s : Cluster) (a : Action) : Decidable (CrashFree s a) :=
  inferInstanceAs (Decidable (_ = _))

/-- Who has entered the leader role, and in which term. -/
def promotions (s : Cluster) : List (Int × Nat) :=
  s.history.filterMap fun event =>
    match event with
    | .promoted i term _ => some (i, term)
    | _ => none

theorem mem_promotions {s : Cluster} {i : Int} {term : Nat} :
    (i, term) ∈ s.promotions ↔ ∃ log, .promoted i term log ∈ s.history := by
  simp only [promotions, List.mem_filterMap]
  constructor
  · rintro ⟨event, member, records⟩
    cases event with
    | promoted node term' log =>
        cases records
        exact ⟨log, member⟩
    | _ => cases records
  · rintro ⟨log, member⟩
    exact ⟨_, member, rfl⟩

/-- No two different nodes have been leader in one term. -/
def OneLeader (s : Cluster) : Prop :=
  ∀ p ∈ s.promotions, ∀ q ∈ s.promotions, p.2 = q.2 → p.1 = q.1

instance (s : Cluster) : Decidable s.OneLeader :=
  inferInstanceAs (Decidable (∀ p ∈ s.promotions, ∀ q ∈ s.promotions, p.2 = q.2 → p.1 = q.1))

theorem mem_promotions_of_leader {history : List Event} {i : Int} {term : Nat}
    (led : (ledgerOf history).leader term = some i) :
    ∃ log, .promoted i term log ∈ history := by
  induction history with
  | nil => cases led
  | cons event history ih =>
      cases event with
      | promoted j term' log =>
          by_cases same : term = term'
          · subst same
            rw [ledgerOf, Ledger.elect_leader_self] at led
            cases led
            exact ⟨log, List.mem_cons_self⟩
          · rw [ledgerOf, Ledger.elect_leader_of_ne j same] at led
            obtain ⟨log, member⟩ := ih led
            exact ⟨log, List.mem_cons_of_mem _ member⟩
      | _ =>
          obtain ⟨log, member⟩ := ih led
          exact ⟨log, List.mem_cons_of_mem _ member⟩

theorem OneLeader.of_applies (oneLeader : s'.OneLeader) (applies : Applies s o s') :
    s.OneLeader := by
  rintro ⟨i, term⟩ first ⟨j, term'⟩ second
  obtain ⟨log, member⟩ := mem_promotions.mp first
  obtain ⟨log', member'⟩ := mem_promotions.mp second
  exact oneLeader _ (mem_promotions.mpr ⟨log, applies.history_mono member⟩)
    _ (mem_promotions.mpr ⟨log', applies.history_mono member'⟩)

/-- With one leader per term, a node is promoted only in terms nobody has led: a
second leader would be the same node, which is past standing in that term. -/
theorem OneLeader.vacant (oneLeader : s'.OneLeader) (matching : Matching s)
    (effect : Effect m s a o) (applies : Applies s o s') {term : Nat} {log : List LogEntry}
    (recorded : .promoted o.node term log ∈ o.events) : s.ledger.leader term = none := by
  obtain ⟨-, rfl, -, candidate, -⟩ := promoted_of_effect effect recorded
  by_contra led
  obtain ⟨j, leader⟩ := Option.ne_none_iff_exists'.mp led
  obtain ⟨log', member⟩ := mem_promotions_of_leader leader
  have same : o.node = j :=
    oneLeader _ (mem_promotions.mpr ⟨log, applies.mem_history.mpr (.inl recorded)⟩)
      _ (mem_promotions.mpr ⟨log', applies.history_mono member⟩) rfl
  exact (matching.led o.node _ (same ▸ leader)).2 rfl candidate

/-- All log invariants together. -/
structure Matched (m : Membership) (threshold : Int) (s : Cluster) : Prop where
  static : Static m threshold s
  shaped : Shaped s
  matching : Matching s

theorem Matched.initial (m : Membership) (threshold : Int) :
    Matched m threshold (init m threshold) :=
  ⟨.initial m threshold, .initial m threshold, .initial m threshold⟩

theorem Matched.step (matched : Matched m threshold s) (crashFree : CrashFree s a)
    (oneLeader : s'.OneLeader) (stepped : s.step m a = some s') :
    Matched m threshold s' := by
  obtain ⟨static, shaped, matching⟩ := matched
  obtain ⟨o, effect, applies⟩ := effect_of_step stepped
  have noRestart : ∀ i, a ≠ .restart i := by
    rintro i rfl
    exact absurd crashFree (by simp [CrashFree, Action.isRestart])
  exact ⟨static.step stepped,
    shaped.step (fun i restart => absurd restart (noRestart i)) stepped,
    matching.of_effect static shaped effect applies
      (fun _ _ recorded => oneLeader.vacant matching effect applies recorded)
      fun i restart => absurd restart (noRestart i)⟩

/-- In a run without crashes and with one leader per term, logs match the
ledger. -/
theorem matched_of_run (run : Run (Cluster.step m) CrashFree (init m threshold) s) :
    s.OneLeader → Matched m threshold s := by
  apply run.invariant
  · exact fun _ => .initial m threshold
  intro t u a matched crashFree stepped oneLeader
  obtain ⟨o, -, applies⟩ := effect_of_step stepped
  exact (matched (oneLeader.of_applies applies)).step crashFree oneLeader stepped

/-- A retained entry sits in the whole log at its absolute index. -/
theorem Shaped.getElem?_of_mem (shaped : Shaped s) {i : Int} {entry : LogEntry}
    (held : entry ∈ (s.node i).log) :
    0 < entry.index ∧ (s.whole i)[entry.index - 1]? = some entry := by
  obtain ⟨k, found⟩ := List.mem_iff_getElem?.mp held
  have index := (shaped.node i).retained k entry found
  refine ⟨by omega, ?_⟩
  rw [index, show (s.node i).logBase + k + 1 - 1 = (s.node i).logBase + k by omega, whole,
    getElem?_whole (shaped.based i)]
  exact found

/-- Log matching: in every run without crashes in which no two nodes lead in one
term, two retained entries with the same index and term are equal, and the two
logs agree on every smaller index that both retain. -/
theorem log_matching (run : Run (step m) CrashFree (init m threshold) s)
    (oneLeader : s.OneLeader) {i j : Int} {entry entry' : LogEntry}
    (held : entry ∈ (s.node i).log) (held' : entry' ∈ (s.node j).log)
    (sameIndex : entry.index = entry'.index) (sameTerm : entry.term = entry'.term) :
    entry.command = entry'.command ∧
      ∀ earlier ∈ (s.node i).log, ∀ earlier' ∈ (s.node j).log,
        earlier.index = earlier'.index → earlier.index < entry.index →
          earlier = earlier' := by
  obtain ⟨-, shaped, matching⟩ := matched_of_run run oneLeader
  obtain ⟨-, found⟩ := shaped.getElem?_of_mem held
  obtain ⟨-, found'⟩ := shaped.getElem?_of_mem held'
  rw [← sameIndex] at found'
  have agree := (matching.rooted i).take_eq_take (matching.rooted j) found found' sameTerm
  -- positions up to the common entry carry the same entries in both whole logs
  have same : ∀ k, k < entry.index - 1 + 1 → (s.whole i)[k]? = (s.whole j)[k]? := by
    intro k below
    rw [← List.getElem?_take_of_lt below, agree, List.getElem?_take_of_lt below]
  constructor
  · have equal := same (entry.index - 1) (by omega)
    rw [found, found'] at equal
    rw [Option.some.inj equal]
  · intro earlier member earlier' member' sameEarlier below
    obtain ⟨-, foundEarlier⟩ := shaped.getElem?_of_mem member
    obtain ⟨-, foundEarlier'⟩ := shaped.getElem?_of_mem member'
    have equal := same (earlier.index - 1) (by omega)
    rw [foundEarlier, sameEarlier, foundEarlier'] at equal
    exact Option.some.inj equal

/-- Node `0` is elected and replicates one command to node `1`. -/
def replication : List Action :=
  election ++
    [.replicate 0 [7] {}, .sendAppendEntries 0 1 1 0,
      .receive (.appendEntries 0 1 ⟨1, 0, 0, 0, [⟨1, 1, [7]⟩], 0⟩) {}]

/-- Log matching applies to two nodes that hold a common entry. -/
theorem log_matching_replication :
    ∃ s, Run (step threeNodes) CrashFree (init threeNodes 0) s ∧
      s.OneLeader ∧ (⟨1, 1, [7]⟩ : LogEntry) ∈ (s.node 0).log ∧
      ∀ entry ∈ (s.node 1).log, entry.index = 1 → entry.term = 1 →
        entry.command = [7] := by
  have reached : ∃ s, Run (step threeNodes) CrashFree (init threeNodes 0) s ∧
      s.OneLeader ∧ (⟨1, 1, [7]⟩ : LogEntry) ∈ (s.node 0).log ∧ (s.node 1).log ≠ [] :=
    exists_run_of_perform replication _ (by decide +kernel)
  obtain ⟨s, run, oneLeader, held, -⟩ := reached
  exact ⟨s, run, oneLeader, held, fun entry held' index term =>
    (log_matching run oneLeader held' held index term).1⟩

end Cluster

end DistribKV
