import DistribKV.KV.Replica
import DistribKV.Node.Pipeline

/-!
# Shutting a process down

The committed log says which map belongs to an index.  Messages on their way bring a
server from one index to another, unless `Kill` takes them out of the channel: what it
takes is missing from the map from then on, and from the snapshots that the node stores
under indices past it, because the apply loop of the server goes on beside `Kill`.
-/

namespace DistribKV.KV

open Consensus

/-! ## The committed log -/

/-- A committed log: the command at every index from `1` on, with the operation
it decodes to.  No operation has a client id. -/
structure CommittedLog (json : Json) where
  command : Nat → Bytes
  op : Nat → Op
  decodes : ∀ index, deserializeCommand json (command index) = .ok (op index)
  anonymous : ∀ index, (op index).clientId = 0

namespace CommittedLog

variable {json : Json} (log : CommittedLog json)

/-- The map after the commands `1` to `index`, applied in order to the empty
map. -/
def contents : Nat → Contents
  | 0 => fun _ => none
  | index + 1 => (log.op (index + 1)).effect (contents index)

/-- The data of a snapshot decodes to the map at its index. -/
def Image (data : Bytes) (index : Nat) : Prop :=
  ∃ state dedup, deserializeSnapshot json data = .ok (state, dedup) ∧
    Store.contents state = log.contents index

/-- Messages that bring a server from one index to another: commands are the
next ones of the log, and snapshots are images of it. -/
def Leads : Nat → List ApplyMsg → Nat → Prop
  | start, [], stop => start = stop
  | start, .command command index :: rest, stop =>
      index = start + 1 ∧ command = log.command index ∧ Leads index rest stop
  | _, .snapshot data index _ :: rest, stop => log.Image data index ∧ Leads index rest stop

variable {log}

/-- After the first message, the others lead on from its index. -/
theorem Leads.tail {start stop : Nat} {msg : ApplyMsg} {rest : List ApplyMsg}
    (leads : log.Leads start (msg :: rest) stop) : log.Leads msg.index rest stop := by
  cases msg with
  | command command index => exact leads.2.2
  | snapshot data index term => exact leads.2

theorem Leads.append {start middle stop : Nat} {first second : List ApplyMsg}
    (leads : log.Leads start first middle) (leadsOn : log.Leads middle second stop) :
    log.Leads start (first ++ second) stop := by
  induction first generalizing start with
  | nil =>
      cases leads
      exact leadsOn
  | cons msg rest ih =>
      cases msg with
      | command command index =>
          obtain ⟨next, same, leads⟩ := leads
          exact ⟨next, same, ih leads⟩
      | snapshot data index term =>
          obtain ⟨image, leads⟩ := leads
          exact ⟨image, ih leads⟩

end CommittedLog

/-- Files a process can continue from: the stored log starts where the stored
snapshot ends, and without a snapshot it is empty. -/
def Restorable (p : Persister) : Prop :=
  p.Readable ∧ (p.snapshotFile.isSome ∨ p.log = [])

instance (p : Persister) : Decidable (Restorable p) :=
  inferInstanceAs (Decidable (_ ∧ _))

/-- The retained committed entries are those of the committed log. -/
def Replica.Commits {json : Json} (log : CommittedLog json) (r : Replica) : Prop :=
  ∀ entry ∈ r.node.raft.log, entry.index ≤ r.node.raft.commitIndex →
    entry.command = log.command entry.index

instance {json : Json} (log : CommittedLog json) (r : Replica) : Decidable (r.Commits log) :=
  inferInstanceAs (Decidable (∀ entry ∈ r.node.raft.log, _ → _))

/-! ## Maps with gaps -/

namespace CommittedLog

variable {json : Json} (log : CommittedLog json)

/-- The map after the commands `1` to `index`, with some of them left out. -/
def contentsWithout (lost : List Nat) : Nat → Contents
  | 0 => fun _ => none
  | index + 1 =>
      if index + 1 ∈ lost then contentsWithout lost index
      else (log.op (index + 1)).effect (contentsWithout lost index)

@[simp] theorem contentsWithout_nil (index : Nat) :
    log.contentsWithout [] index = log.contents index := by
  induction index with
  | zero => rfl
  | succ index ih => simp [contentsWithout, contents, ih]

/-- Indices past the end do not matter. -/
theorem contentsWithout_append {lost more : List Nat} {index : Nat}
    (beyond : ∀ n ∈ more, index < n) :
    log.contentsWithout (lost ++ more) index = log.contentsWithout lost index := by
  induction index with
  | zero => rfl
  | succ index ih =>
      have absent : index + 1 ∉ more := fun member => (beyond _ member).false
      simp only [contentsWithout, List.mem_append, absent, or_false]
      rw [ih fun n member => (Nat.lt_succ_self index).trans (beyond n member)]

/-- Nothing happens between two indices if everything between them is left out. -/
theorem contentsWithout_of_lost {lost : List Nat} {start stop : Nat} (le : start ≤ stop)
    (gone : ∀ n, start < n → n ≤ stop → n ∈ lost) :
    log.contentsWithout lost stop = log.contentsWithout lost start := by
  induction stop, le using Nat.le_induction with
  | base => rfl
  | succ stop le ih =>
      rw [contentsWithout, if_pos (gone _ (Nat.lt_succ_of_le le) le_rfl)]
      exact ih fun n above below => gone n above (Nat.le_succ_of_le below)

/-- The data of a snapshot decodes to the map at its index, with some commands left
out. -/
def ImageWithout (lost : List Nat) (data : Bytes) (index : Nat) : Prop :=
  ∃ state dedup, deserializeSnapshot json data = .ok (state, dedup) ∧
    Store.contents state = log.contentsWithout lost index

theorem imageWithout_nil {data : Bytes} {index : Nat} :
    log.ImageWithout [] data index ↔ log.Image data index := by
  simp only [ImageWithout, Image, contentsWithout_nil]

/-- The indices of messages on their way only rise. -/
def Rising (start : Nat) (msgs : List ApplyMsg) : Prop :=
  (start :: msgs.map ApplyMsg.index).Pairwise (· ≤ ·)

variable {log} {start stop : Nat} {msgs : List ApplyMsg} {msg : ApplyMsg}

theorem Rising.head (rising : Rising start (msg :: msgs)) :
    start ≤ msg.index ∧ Rising msg.index msgs := by
  obtain ⟨first, rest⟩ := List.pairwise_cons.mp rising
  exact ⟨first _ List.mem_cons_self, rest⟩

theorem Rising.of_append {more : List ApplyMsg} (rising : Rising start (msgs ++ more)) :
    Rising start msgs := by
  unfold Rising at rising ⊢
  rw [List.map_append, ← List.cons_append] at rising
  exact (List.pairwise_append.mp rising).1

/-- Messages on their way stay below the index they lead to. -/
theorem Rising.le_stop (rising : Rising start msgs) (leads : log.Leads start msgs stop) :
    ∀ n ∈ start :: msgs.map ApplyMsg.index, n ≤ stop := by
  induction msgs generalizing start with
  | nil =>
      cases leads
      intro n member
      exact (List.mem_singleton.mp member).le
  | cons msg rest ih =>
      obtain ⟨first, rising⟩ := rising.head
      have below := ih rising leads.tail
      intro n member
      rcases List.mem_cons.mp member with rfl | later
      · exact first.trans (below _ List.mem_cons_self)
      · exact below n later

theorem Rising.concat (rising : Rising start msgs) (leads : log.Leads start msgs stop)
    (le : stop ≤ msg.index) : Rising start (msgs ++ [msg]) := by
  have below := rising.le_stop leads
  unfold Rising at rising ⊢
  rw [List.map_append, ← List.cons_append]
  refine List.pairwise_append.mpr ⟨rising, List.pairwise_singleton _ _, ?_⟩
  intro n member last isLast
  cases List.mem_singleton.mp isLast
  exact (below n member).trans le

/-- Without their last command, messages lead to the index before it. -/
theorem Leads.of_concat {command : Bytes} {index : Nat}
    (leads : log.Leads start (msgs ++ [.command command index]) stop) :
    log.Leads start msgs (stop - 1) := by
  induction msgs generalizing start with
  | nil =>
      obtain ⟨next, -, same⟩ := leads
      exact (by cases same; omega : start = stop - 1)
  | cons msg rest ih =>
      cases msg with
      | command command index => exact ⟨leads.1, leads.2.1, ih leads.2.2⟩
      | snapshot data index term => exact ⟨leads.1, ih leads.2⟩

end CommittedLog

/-! ## What is left out -/

namespace Process

variable {json : Json} {log : CommittedLog json} {cfg : Config} {p : Persister}
  {s s' : Process} {a : ProcessAction}

/-- Requests and snapshots from other nodes are well formed, and an installation that
takes place finds the apply loop idle and does not fail. -/
def Supplied (log : CommittedLog json) (s : Process) : ProcessAction → Prop
  | .replica (.raft a) => s.replica.Commits log ∧ s.replica.node.Delivers a ∧
      ∀ req disk, a = .installSnapshot req disk → log.Image req.data req.lastIncludedIndex
  | _ => True

/-- The server holds the map at the index it has applied without what was lost, and the
messages on their way bring it from the index they have reached to the one of the
apply loop. -/
structure Gapped (log : CommittedLog json) (s : Process) : Prop where
  placed : s.replica.node.raft.Placed
  applied : s.replica.node.raft.lastApplied ≤ s.replica.node.raft.commitIndex
  taken : ∀ msg ∈ s.replica.node.applying, ∃ command index, msg = .command command index
  queue : log.Leads s.reached
    (s.replica.node.raft.applyCh ++ s.replica.node.applying.toList)
    s.replica.node.raft.lastApplied
  rising : CommittedLog.Rising s.reached
    (s.replica.node.raft.applyCh ++ s.replica.node.applying.toList)
  held : s.replica.kv.state.contents = log.contentsWithout s.lost s.replica.kv.lastApplied
  behind : s.replica.kv.lastApplied ≤ s.reached
  gone : ∀ n, s.replica.kv.lastApplied < n → n ≤ s.reached → n ∈ s.lost
  bounded : ∀ n ∈ s.lost, n ≤ s.reached
  pending : ∀ handed ∈ s.replica.pending,
    handed.1 ≤ s.reached ∧ log.ImageWithout s.lost handed.2 handed.1
  quiet : s.stopping ≠ .draining → s.lost = []

namespace Gapped

/-- A process that starts on files to continue from. -/
theorem started {raft : Raft} {sent : List ApplyMsg} {votes : List (Nat × Int)}
    {accepted : List (Nat × Bytes)} (restorable : Restorable p)
    (stored : ∀ file ∈ p.snapshotFile, log.Image file.data file.lastIncludedIndex)
    (fresh : raft = (Raft.newRaft cfg p).start) :
    Gapped log { replica := ⟨⟨raft, none, sent, votes⟩, {}, none, accepted⟩ } := by
  obtain ⟨placed, applied, recovers⟩ := Raft.newRaft_recovers cfg restorable.1
  subst fresh
  refine
    { placed := ⟨placed.aligned, placed.based⟩
      applied := applied
      taken := by rintro _ ⟨⟩
      queue := ?_
      rising := ?_
      held := rfl
      behind := le_rfl
      gone := fun n above below => absurd above (Nat.not_lt.mpr below)
      bounded := by rintro _ ⟨⟩
      pending := by rintro _ ⟨⟩
      quiet := fun _ => rfl }
  all_goals simp only [Raft.start, Option.toList_none, List.append_nil]
  · cases recovers with
    | log noSnapshot applyCh lastApplied =>
        have empty : p.log = [] := by
          have found := restorable.2
          rw [noSnapshot] at found
          exact found.resolve_left (by simp)
        rw [applyCh, lastApplied, empty]
        rfl
    | blank applyCh lastApplied =>
        rw [applyCh, lastApplied]
        rfl
    | snapshot found applyCh lastApplied =>
        rw [applyCh, lastApplied]
        exact ⟨stored _ found, rfl⟩
  · cases recovers with
    | log _ applyCh => simp [applyCh, CommittedLog.Rising]
    | blank applyCh => simp [applyCh, CommittedLog.Rising]
    | snapshot _ applyCh => simp [applyCh, CommittedLog.Rising]

/-- A step of the node on its own. -/
theorem raft {action : NodeAction} {node : Node} (gapped : Gapped log s)
    (commits : s.replica.Commits log) (own : shared action = false)
    (image : ∀ req disk, action = .installSnapshot req disk →
      log.Image req.data req.lastIncludedIndex)
    (feeds : Feeds s.replica.node action node) :
    Gapped log { s with replica := { s.replica with node } } := by
  -- the server and what it has lost stay as they are
  have server : ∀ {node : Node}, node.raft.Placed →
      node.raft.lastApplied ≤ node.raft.commitIndex →
      (∀ msg ∈ node.applying, ∃ command index, msg = .command command index) →
      log.Leads s.reached (node.raft.applyCh ++ node.applying.toList) node.raft.lastApplied →
      CommittedLog.Rising s.reached (node.raft.applyCh ++ node.applying.toList) →
      Gapped log { s with replica := { s.replica with node } } :=
    fun placed applied taken queue rising =>
      ⟨placed, applied, taken, queue, rising, gapped.held, gapped.behind, gapped.gone,
        gapped.bounded, gapped.pending, gapped.quiet⟩
  have applied := gapped.applied
  have queue := gapped.queue
  have rising := gapped.rising
  cases feeds with
  | keep placed commit lastApplied applyCh file =>
      refine server placed ?_ gapped.taken ?_ ?_
      · simp only [lastApplied]
        exact applied.trans commit
      · simp only [applyCh, lastApplied]
        exact queue
      · simp only [applyCh]
        exact rising
  | compact => cases own
  | @install req disk raft msg idle placed fresh commit lastApplied queued applyCh file =>
      rw [idle, Option.toList_none, List.append_nil] at queue rising
      refine server placed (lastApplied.trans_le commit) gapped.taken ?_ ?_
      · simp only [applyCh, lastApplied, idle, Option.toList_none, List.append_nil]
        rw [queued]
        exact queue.append ⟨image req disk rfl, rfl⟩
      · simp only [applyCh, idle, Option.toList_none, List.append_nil]
        refine rising.concat queue ?_
        rw [queued]
        exact applied.trans fresh.le
  | @take entry idle pending held index =>
      rw [idle, Option.toList_none, List.append_nil] at queue rising
      refine server ⟨gapped.placed.aligned, gapped.placed.based⟩ pending ?_ ?_ ?_
      · rintro msg ⟨⟩
        exact ⟨_, _, rfl⟩
      · exact queue.append ⟨index, commits entry held (index ▸ pending), index⟩
      · refine rising.concat queue ?_
        simp only [ApplyMsg.index, index]
        omega
  | @send msg held =>
      rw [held] at queue rising
      refine server ⟨gapped.placed.aligned, gapped.placed.based⟩ applied ?_ ?_ ?_
      · rintro msg ⟨⟩
      · simpa using queue
      · simpa using rising
  | consume => cases own
  | restart => cases own

/-- Map and index of the server after the next message. -/
theorem processed {msg : ApplyMsg} {rest : List ApplyMsg} {stop : Nat} (gapped : Gapped log s)
    (leads : log.Leads s.reached (msg :: rest) stop) (now : Moment) :
    (s.replica.kv.processApplyMsg json now msg).server.lastApplied = msg.index ∧
      (s.replica.kv.processApplyMsg json now msg).server.state.contents =
        log.contentsWithout (lostAfter s.lost msg) msg.index ∧
      ∀ n ∈ lostAfter s.lost msg, n ≤ msg.index := by
  cases msg with
  | command command index =>
      obtain ⟨rfl, rfl, -⟩ := leads
      rw [s.replica.kv.processApplyMsg_of_anonymous (log.decodes _) (log.anonymous _)]
      obtain ⟨contents, lastApplied⟩ := s.replica.kv.execute_contents (log.op (s.reached + 1))
        (s.reached + 1) now
      have next : s.reached + 1 ∉ s.lost := fun member =>
        absurd (gapped.bounded _ member) (Nat.not_succ_le_self _)
      refine ⟨lastApplied, ?_, fun n member => Nat.le_succ_of_le (gapped.bounded n member)⟩
      rw [contents, gapped.held, ← log.contentsWithout_of_lost gapped.behind gapped.gone]
      simp only [lostAfter, ApplyMsg.index, CommittedLog.contentsWithout, next, if_false]
  | snapshot data index term =>
      obtain ⟨⟨state, dedup, decoded, contents⟩, -⟩ := leads
      simp only [Server.processApplyMsg, Server.handleSnapshotMsg, decoded, lostAfter,
        ApplyMsg.index, CommittedLog.contentsWithout_nil]
      exact ⟨trivial, contents, by rintro _ ⟨⟩⟩

/-- The server processes the next message. -/
theorem apply {msg : ApplyMsg} {rest : List ApplyMsg} (gapped : Gapped log s)
    (received : s.replica.node.raft.applyCh = msg :: rest) (now : Moment) :
    Gapped log { s with
      replica := { s.replica with
        node := { s.replica.node with raft := { s.replica.node.raft with applyCh := rest } }
        kv := (s.replica.kv.processApplyMsg json now msg).server
        pending :=
          if (s.replica.kv.processApplyMsg json now msg).triggers then
            (s.replica.kv.processApplyMsg json now msg).server.takeSnapshot json
              s.replica.node.raft.snapshotThreshold now.time
          else none }
      reached := msg.index
      lost := lostAfter s.lost msg } := by
  have queue := gapped.queue
  have rising := gapped.rising
  rw [received, List.cons_append] at queue rising
  obtain ⟨lastApplied, contents, bounded⟩ := gapped.processed queue now
  refine
    { placed := ⟨gapped.placed.aligned, gapped.placed.based⟩
      applied := gapped.applied
      taken := gapped.taken
      queue := queue.tail
      rising := rising.head.2
      held := by rw [lastApplied]; exact contents
      behind := lastApplied.le
      gone := fun n after before => absurd (lastApplied ▸ after) (Nat.not_lt.mpr before)
      bounded := bounded
      pending := ?_
      quiet := fun early => ?_ }
  · rintro ⟨index, data⟩ handed
    simp only at handed
    split at handed
    · obtain ⟨same, dedup, decoded⟩ := Server.takeSnapshot_decodes _ handed
      rw [lastApplied] at same
      subst same
      exact ⟨le_rfl, _, dedup, decoded, contents⟩
    · cases handed
  · simp only [gapped.quiet early, lostAfter_nil]

/-- `Kill` takes a message out of the channel. -/
theorem drain {msg : ApplyMsg} {rest : List ApplyMsg} (gapped : Gapped log s)
    (received : s.replica.node.raft.applyCh = msg :: rest) (draining : s.stopping = .draining) :
    Gapped log { s with
      replica := { s.replica with
        node := { s.replica.node with raft := { s.replica.node.raft with applyCh := rest } } }
      reached := msg.index
      lost := s.lost ++ covered s.reached msg } := by
  have queue := gapped.queue
  have rising := gapped.rising
  rw [received, List.cons_append] at queue rising
  obtain ⟨above, rising⟩ := rising.head
  have passed : ∀ n, n ∈ covered s.reached msg ↔ s.reached < n ∧ n ≤ msg.index := by
    intro n
    rw [covered, List.mem_range'_1]
    omega
  have beyond : ∀ {index : Nat}, index ≤ s.reached → ∀ n ∈ covered s.reached msg, index < n :=
    fun le n member => Nat.lt_of_le_of_lt le ((passed n).mp member).1
  refine
    { placed := ⟨gapped.placed.aligned, gapped.placed.based⟩
      applied := gapped.applied
      taken := gapped.taken
      queue := queue.tail
      rising := rising
      held := ?_
      behind := gapped.behind.trans above
      gone := fun n after before => ?_
      bounded := fun n member => ?_
      pending := fun handed isPending => ?_
      quiet := fun early => absurd draining early }
  · rw [log.contentsWithout_append (beyond gapped.behind)]
    exact gapped.held
  · rcases Nat.lt_or_ge s.reached n with late | early
    · exact List.mem_append_right _ ((passed n).mpr ⟨late, before⟩)
    · exact List.mem_append_left _ (gapped.gone n after early)
  · rcases List.mem_append.mp member with old | new
    · exact (gapped.bounded n old).trans above
    · exact ((passed n).mp new).2
  · obtain ⟨le, state, dedup, decoded, contents⟩ := gapped.pending handed isPending
    refine ⟨le.trans above, state, dedup, decoded, ?_⟩
    rw [log.contentsWithout_append (beyond le)]
    exact contents

/-- The apply loop of the node gives back what it could not send. -/
theorem exitApplyLoop (gapped : Gapped log s) {stopping : Stopping}
    (early : s.stopping ≠ .draining) :
    Gapped log { s with
      replica := { s.replica with node := s.replica.node.exitApplyLoop }
      stopping } := by
  have nothing := gapped.quiet early
  have queue := gapped.queue
  have rising := gapped.rising
  cases applying : s.replica.node.applying with
  | none =>
      have same : s.replica.node.exitApplyLoop = s.replica.node := by
        simp only [Node.exitApplyLoop, applying]
      rw [same]
      exact ⟨gapped.placed, gapped.applied, gapped.taken, queue, rising, gapped.held,
        gapped.behind, gapped.gone, gapped.bounded, gapped.pending, fun _ => nothing⟩
  | some msg =>
      obtain ⟨command, index, rfl⟩ := gapped.taken msg applying
      rw [applying, Option.toList_some] at queue rising
      simp only [Node.exitApplyLoop, applying]
      refine ⟨⟨gapped.placed.aligned, gapped.placed.based⟩, (Nat.sub_le _ _).trans gapped.applied,
        by rintro _ ⟨⟩, ?_, ?_, gapped.held, gapped.behind, gapped.gone, gapped.bounded,
        gapped.pending, fun _ => nothing⟩
      · simp only [Option.toList_none, List.append_nil]
        exact queue.of_concat
      · simp only [Option.toList_none, List.append_nil]
        exact rising.of_append

/-- The node answers the snapshot that the server handed over. -/
theorem snapshot {index : Nat} {data : Bytes} {disk : Disk} {raft : Raft}
    {err : Option String} {accepted : List (Nat × Bytes)} (gapped : Gapped log s)
    (called : s.replica.node.raft.snapshotUpTo index data disk = (raft, err)) :
    Gapped log { s with
      replica :=
        { node := { s.replica.node with raft }
          kv := Replica.settle s.replica.kv index err
          accepted } } := by
  have feeds := Node.feeds_of_snapshotUpTo gapped.placed called
  obtain ⟨placed, commit, lastApplied, applyCh⟩ : raft.Placed ∧
      s.replica.node.raft.commitIndex ≤ raft.commitIndex ∧
      raft.lastApplied = s.replica.node.raft.lastApplied ∧
      raft.applyCh = s.replica.node.raft.applyCh := by
    generalize moved : { s.replica.node with raft } = node at feeds
    cases feeds with
    | keep placed commit lastApplied applyCh =>
        cases moved
        exact ⟨placed, commit, lastApplied, applyCh⟩
    | compact placed commit lastApplied applyCh =>
        cases moved
        exact ⟨placed, commit, lastApplied, applyCh⟩
  obtain ⟨state, applied⟩ := Replica.settle_state s.replica.kv index err
  refine ⟨placed, ?_, gapped.taken, ?_, ?_, ?_, ?_, ?_, gapped.bounded, by rintro _ ⟨⟩,
    gapped.quiet⟩
  · simp only [lastApplied]
    exact gapped.applied.trans commit
  · simp only [applyCh, lastApplied]
    exact gapped.queue
  · simp only [applyCh]
    exact gapped.rising
  · simp only [state, applied]
    exact gapped.held
  · simp only [applied]
    exact gapped.behind
  · simp only [applied]
    exact gapped.gone

theorem replica {action : ReplicaAction} (gapped : Gapped log s)
    (supplied : s.Supplied log (.replica action))
    (stepped : s.step json (.replica action) = some s') : Gapped log s' := by
  simp only [Process.step] at stepped
  split at stepped
  · cases stepped
  split at stepped
  · cases stepped
  next replica moved =>
    cases action with
    | raft action =>
        cases stepped
        obtain ⟨own, node, acted, rfl⟩ := Replica.of_raft moved
        exact gapped.raft supplied.1 own supplied.2.2
          (Node.feeds_of_effect gapped.placed supplied.2.1 (Node.effect_of_step acted))
    | apply now =>
        obtain ⟨msg, rest, received, rfl⟩ := Replica.of_apply moved
        rw [received] at stepped
        cases stepped
        exact gapped.apply received now
    | snapshot disk =>
        cases stepped
        obtain ⟨index, data, raft, err, held, called, rfl⟩ := Replica.of_snapshot moved
        exact gapped.snapshot called

/-- Every step of a process keeps the gaps in the map in step with what has been
lost. -/
theorem step (gapped : Gapped log s) (supplied : s.Supplied log a) (goesOn : a ≠ .restart)
    (stepped : s.step json a = some s') : Gapped log s' := by
  cases a with
  | replica action => exact gapped.replica supplied stepped
  | restart => exact absurd rfl goesOn
  | shutdown =>
      simp only [Process.step] at stepped
      split at stepped
      next early =>
        cases stepped
        obtain ⟨_, _, same⟩ := s.replica.node.raft.beginShutdown_eq
        rw [same]
        exact ⟨⟨gapped.placed.aligned, gapped.placed.based⟩, gapped.applied, gapped.taken,
          gapped.queue, gapped.rising, gapped.held, gapped.behind, gapped.gone, gapped.bounded,
          gapped.pending, fun _ => gapped.quiet (by rw [early]; simp)⟩
      · cases stepped
  | exitApplyLoop =>
      simp only [Process.step] at stepped
      split at stepped
      next early =>
        cases stepped
        exact gapped.exitApplyLoop (by rw [early]; simp)
      · cases stepped
  | kill =>
      simp only [Process.step] at stepped
      split at stepped
      · cases stepped
        exact ⟨gapped.placed, gapped.applied, gapped.taken, gapped.queue, gapped.rising,
          gapped.held, gapped.behind, gapped.gone, gapped.bounded, gapped.pending,
          fun early => absurd rfl early⟩
      · cases stepped
  | drain =>
      simp only [Process.step] at stepped
      split at stepped
      next draining received =>
        cases stepped
        exact gapped.drain received draining
      · cases stepped

end Gapped

/-- What a process leaves out when it is shut down: in every run of a process whose
committed entries are those of one log of commands without client ids, with a shutdown
at any point, every snapshot that the key-value server hands to the node decodes to the
map of the commands up to its index without those that `Kill` took out of the apply
channel.  Until `Kill` drains the channel, nothing is left out. -/
theorem snapshot_lacks_drained (log : CommittedLog json) (restorable : Restorable p)
    (stored : ∀ file ∈ p.snapshotFile, log.Image file.data file.lastIncludedIndex)
    (run : Run (Process.step json) (fun s a => s.Supplied log a ∧ a ≠ .restart) (init cfg p) s)
    {index : Nat} {data : Bytes} (handed : s.replica.pending = some (index, data)) :
    (∃ state dedup, deserializeSnapshot json data = .ok (state, dedup) ∧
      ∀ key, state.lookup key = log.contentsWithout s.lost index key) ∧
      (s.stopping ≠ .draining → s.lost = []) := by
  have gapped : Gapped log s :=
    run.invariant (Gapped.started restorable stored rfl)
      fun gapped allowed => gapped.step allowed.1 allowed.2
  obtain ⟨-, state, dedup, decoded, contents⟩ := gapped.pending _ handed
  exact ⟨⟨state, dedup, decoded, fun key => congrFun contents key⟩, gapped.quiet⟩

/-! ### A process that loses a message -/

/-- The bytes of a JSON text. -/
def text (json : String) : Bytes := json.toUTF8.data.toList

/-- The command that puts `a` under `x`. -/
def putX : Bytes := text "\x7b\"op\":2,\"key\":\"x\",\"value\":\"a\"\x7d"

/-- The command that puts `b` under `y`. -/
def putY : Bytes := text "\x7b\"op\":2,\"key\":\"y\",\"value\":\"b\"\x7d"

def imageX : Bytes := text "\x7b\"state\":\x7b\"x\":\"a\"\x7d\x7d"

def imageY : Bytes := text "\x7b\"state\":\x7b\"y\":\"b\"\x7d\x7d"

def imageXY : Bytes := text "\x7b\"state\":\x7b\"x\":\"a\",\"y\":\"b\"\x7d\x7d"

/-- The maps of the runs below, with their JSON texts.  An empty cache is left
out of the text. -/
def sampleImages : List (SnapshotPayload × Bytes) :=
  [(⟨(∅ : Store).insert "x" "a", ∅⟩, imageX),
    (⟨(∅ : Store).insert "y" "b", ∅⟩, imageY),
    (⟨((∅ : Store).insert "x" "a").insert "y" "b", ∅⟩, imageXY)]

/-- The JSON library on the values of these runs. -/
def sampleJson : Json where
  unmarshalCommand data :=
    if data = putX then .ok { op := 2, key := "x", value := "a" }
    else if data = putY then .ok { op := 2, key := "y", value := "b" }
    else .error "unexpected end of JSON input"
  marshalSnapshot payload :=
    match sampleImages.find? (·.1 = payload) with
    | none => .error "unsupported value"
    | some image => .ok image.2
  unmarshalSnapshot data :=
    match sampleImages.find? (·.2 = data) with
    | none => .error "unexpected end of JSON input"
    | some image => .ok image.1
  roundTrip := by
    intro payload data marshalled
    have decodes : ∀ image ∈ sampleImages,
        sampleImages.find? (·.2 = image.2) = some image := by decide +kernel
    split at marshalled
    · cases marshalled
    next image found =>
      cases marshalled
      rw [decodes image (List.mem_of_find?_eq_some found)]
      have same := List.find?_some found
      exact congrArg Except.ok (of_decide_eq_true same)

/-- `putX`, and `putY` at every later index. -/
def sampleLog : CommittedLog sampleJson where
  command index := if index = 1 then putX else putY
  op index :=
    if index = 1 then ⟨.put, "x", "a", 0, 0⟩ else ⟨.put, "y", "b", 0, 0⟩
  decodes index := by
    split
    · rfl
    · rfl
  anonymous index := by
    split
    · rfl
    · rfl

/-- Requests are well formed, and no snapshot comes from another node. -/
@[reducible] def Unaided (n : Node) : NodeAction → Prop
  | .installSnapshot _ _ => False
  | a => n.Delivers a

instance (n : Node) : DecidablePred (Unaided n) := NodeAction.decidable _

/-- A process without help from other nodes. -/
def Alone (log : CommittedLog json) (s : Process) : ProcessAction → Prop
  | .replica (.raft a) => s.replica.Commits log ∧ Unaided s.replica.node a
  | _ => True

instance (log : CommittedLog json) (s : Process) : DecidablePred (s.Alone log)
  | .replica (.raft _) => inferInstanceAs (Decidable (_ ∧ _))
  | .replica (.apply _) | .replica (.snapshot _) | .shutdown | .exitApplyLoop | .kill | .drain
  | .restart => inferInstanceAs (Decidable True)

theorem Alone.supplied (alone : s.Alone log a) : s.Supplied log a := by
  cases a with
  | replica action =>
      cases action with
      | raft action =>
          obtain ⟨commits, unaided⟩ := alone
          cases action with
          | installSnapshot req disk => exact unaided.elim
          | _ => exact ⟨commits, unaided, fun _ _ same => by cases same⟩
      | _ => trivial
  | _ => trivial

/-- Two entries wait in the channel when the process is shut down.  `Kill` takes the
first one, and the server applies the second one, which makes a snapshot due. -/
def sharedOut : List ProcessAction :=
  [.replica (.raft (.appendEntries ⟨1, 1, 0, 0, [⟨1, 1, putX⟩, ⟨2, 1, putY⟩], 2⟩ {})),
    .replica (.raft .takeEntry), .replica (.raft .sendEntry), .replica (.raft .takeEntry),
    .replica (.raft .sendEntry), .shutdown, .exitApplyLoop, .kill, .drain, .replica (.apply 0)]

/-- The node stores a snapshot at index `2` without the first command. -/
theorem snapshot_lacks_drained_sharedOut :
    ∃ s, Run (Process.step sampleJson) (fun s a => s.Supplied sampleLog a ∧ a ≠ .restart)
        (init ⟨0, [1, 2], 2⟩ {}) s ∧
      s.lost = [1] ∧ (s.step sampleJson (.replica (.snapshot {}))).any (fun s' =>
        decide (s'.replica.accepted = [(2, imageY)])) = true ∧
      sampleLog.contents 2 "x" = some "a" ∧
      ∃ state dedup, deserializeSnapshot sampleJson imageY = .ok (state, dedup) ∧
        state.lookup "x" = none := by
  obtain ⟨s, run, lost, handed, accepted⟩ : ∃ s, Run (Process.step sampleJson)
      (fun s a => s.Alone sampleLog a ∧ a ≠ .restart) (init ⟨0, [1, 2], 2⟩ {}) s ∧
      s.lost = [1] ∧ s.replica.pending = some (2, imageY) ∧
      (s.step sampleJson (.replica (.snapshot {}))).any (fun s' =>
        decide (s'.replica.accepted = [(2, imageY)])) = true :=
    exists_run_of_perform sharedOut _ (by decide +kernel)
  have run := run.mono fun _ _ allowed => And.imp_left Alone.supplied allowed
  obtain ⟨⟨state, dedup, decoded, contents⟩, -⟩ :=
    snapshot_lacks_drained sampleLog (by decide) (by simp) run handed
  refine ⟨s, run, lost, accepted, rfl, state, dedup, decoded, ?_⟩
  rw [contents, lost]
  rfl

end Process

end DistribKV.KV
