import DistribKV.Node.Pipeline
import Mathlib.Data.List.Chain

/-!
# Order of the apply channel

Commands reach the application one after another and snapshots move it forward,
as long as an installation finds the apply loop between two entries and goes all
the way.  The run at the end of this module shows an installation that overtakes
an entry which the apply loop has taken but not sent.
-/

namespace DistribKV

/-- A command carries the index after the message before it, and a snapshot a
higher one. -/
def ApplyMsg.Follows (before : ApplyMsg) : ApplyMsg → Prop
  | .command _ commandIndex => commandIndex = before.index + 1
  | .snapshot _ lastIncludedIndex _ => before.index < lastIncludedIndex

theorem ApplyMsg.Follows.lt {before after : ApplyMsg} (follows : before.Follows after) :
    before.index < after.index := by
  cases after with
  | command _ commandIndex =>
      have next : commandIndex = before.index + 1 := follows
      exact next ▸ Nat.lt_succ_self _
  | snapshot _ _ _ => exact follows

namespace Node

open Consensus

/-- The messages sent so far are in order, and the next one will be. -/
structure InOrder (n : Node) : Prop where
  placed : n.raft.Placed
  applied : n.raft.lastApplied ≤ n.raft.commitIndex
  chain : n.sent.IsChain ApplyMsg.Follows
  idle : n.applying = none → ∀ last ∈ n.sent.getLast?, last.index = n.raft.lastApplied
  busy : ∀ msg, n.applying = some msg → msg.index = n.raft.lastApplied ∧
    ∀ last ∈ n.sent.getLast?, last.Follows msg

variable {cfg : Config} {p : Persister} {n n' : Node} {a : NodeAction}

namespace InOrder

theorem initial (readable : p.Readable) : InOrder (init cfg p) := by
  obtain ⟨placed, applied, recovers⟩ := Raft.newRaft_recovers cfg readable
  refine ⟨⟨placed.aligned, placed.based⟩, applied, ?_, fun _ last found => ?_,
    fun msg held => by cases held⟩
  · simp only [init]
    cases recovers with
    | log _ applyCh _ => exact applyCh ▸ .nil
    | blank applyCh _ => exact applyCh ▸ .nil
    | snapshot _ applyCh _ => exact applyCh ▸ .singleton _
  · simp only [init] at found ⊢
    cases recovers with
    | log _ applyCh _ =>
        rw [applyCh] at found
        cases found
    | blank applyCh _ =>
        rw [applyCh] at found
        cases found
    | snapshot _ applyCh lastApplied =>
        rw [applyCh] at found
        cases found
        exact lastApplied.symm

/-- A step that leaves the apply loop alone. -/
theorem keep (inOrder : InOrder n) (r : Raft) (votes : List (Nat × Int)) (placed : r.Placed)
    (commit : n.raft.commitIndex ≤ r.commitIndex)
    (lastApplied : r.lastApplied = n.raft.lastApplied) :
    InOrder { n with raft := r, votes } where
  placed := placed
  applied := by
    simp only [lastApplied]
    exact inOrder.applied.trans commit
  chain := inOrder.chain
  idle := by
    simp only [lastApplied]
    exact inOrder.idle
  busy := by
    simp only [lastApplied]
    exact inOrder.busy

/-- Sending a message that follows the last one keeps the order. -/
theorem chain_concat (inOrder : InOrder n) {msg : ApplyMsg}
    (follows : ∀ last ∈ n.sent.getLast?, last.Follows msg) :
    (n.sent ++ [msg]).IsChain ApplyMsg.Follows := by
  refine List.isChain_append.mpr ⟨inOrder.chain, .singleton _, ?_⟩
  intro last isLast first isFirst
  cases isFirst
  exact follows last isLast

/-- Every step but a restart keeps the order. -/
theorem of_feeds (inOrder : InOrder n) (running : a ≠ .restart) (feeds : Feeds n a n') :
    InOrder n' := by
  cases feeds with
  | keep placed commit lastApplied _ _ =>
      exact inOrder.keep _ _ placed commit lastApplied
  | compact placed commit lastApplied _ _ =>
      exact inOrder.keep _ n.votes placed commit lastApplied
  | @install req disk r msg idle placed fresh commit lastApplied queued applyCh _ =>
      have applied := inOrder.applied
      refine ⟨placed, ?_, inOrder.chain_concat fun last isLast => ?_,
        fun _ last isLast => ?_, fun msg held => ?_⟩
      · rw [lastApplied]
        exact commit
      · have index := inOrder.idle idle last isLast
        rw [queued]
        simp only [ApplyMsg.Follows]
        omega
      · rw [List.getLast?_concat] at isLast
        cases isLast
        rw [queued]
        exact lastApplied.symm
      · rw [idle] at held
        cases held
  | take idle pending held index =>
      refine ⟨⟨inOrder.placed.aligned, inOrder.placed.based⟩, pending, inOrder.chain,
        fun idle => (by cases idle), ?_⟩
      rintro msg ⟨⟩
      refine ⟨index, fun last isLast => ?_⟩
      rw [ApplyMsg.Follows, index, inOrder.idle idle last isLast]
  | send held =>
      obtain ⟨index, follows⟩ := inOrder.busy _ held
      refine ⟨⟨inOrder.placed.aligned, inOrder.placed.based⟩, inOrder.applied,
        inOrder.chain_concat follows, fun _ last isLast => ?_, fun msg held => by cases held⟩
      simp only [List.getLast?_concat] at isLast
      cases isLast
      exact index
  | consume =>
      exact inOrder.keep _ n.votes ⟨inOrder.placed.aligned, inOrder.placed.based⟩ le_rfl rfl
  | restart => exact (running rfl).elim

end InOrder

/-- Apply-channel order: in every run of a node without restart in which
installations find the apply loop idle and do not fail, each message on the apply
channel follows the one before it, so that indices increase strictly and commands
leave no gap. -/
theorem apply_messages_in_order (readable : p.Readable)
    (run : Run step (fun n a => n.Delivers a ∧ a ≠ .restart) (init cfg p) n) :
    n.sent.IsChain ApplyMsg.Follows ∧
      n.sent.Pairwise fun before after => before.index < after.index := by
  have inOrder : InOrder n :=
    run.invariant (.initial readable) fun inOrder allowed stepped =>
      inOrder.of_feeds allowed.2
        (feeds_of_effect inOrder.placed allowed.1 (effect_of_step stepped))
  refine ⟨inOrder.chain, ?_⟩
  have increasing : (n.sent.map ApplyMsg.index).IsChain (· < ·) :=
    List.isChain_map_of_isChain ApplyMsg.index (fun _ _ follows => follows.lt) inOrder.chain
  rw [List.isChain_iff_pairwise, List.pairwise_map] at increasing
  exact increasing

/-- A node that applies an entry, installs a snapshot, and applies the entry
after it. -/
def installBetween : List NodeAction :=
  [.appendEntries ⟨1, 1, 0, 0, [⟨1, 1, [7]⟩, ⟨2, 1, [8]⟩, ⟨3, 1, [9]⟩], 1⟩ {},
    .takeEntry, .sendEntry, .installSnapshot ⟨1, 1, 2, 1, [5]⟩ {},
    .appendEntries ⟨1, 1, 3, 1, [], 3⟩ {}, .takeEntry, .sendEntry]

/-- The order holds in a run with an installation. -/
theorem apply_messages_in_order_install :
    ∃ n, Run step (fun n a => n.Delivers a ∧ a ≠ .restart) (init ⟨0, [1, 2], 1⟩ {}) n ∧
      n.sent = [.command [7] 1, .snapshot [5] 2 1, .command [9] 3] ∧
      n.sent.Pairwise fun before after => before.index < after.index := by
  have reached : ∃ n, Run step (fun n a => n.Delivers a ∧ a ≠ .restart) (init ⟨0, [1, 2], 1⟩ {}) n ∧
      n.sent = [.command [7] 1, .snapshot [5] 2 1, .command [9] 3] :=
    exists_run_of_perform installBetween _ (by decide +kernel)
  obtain ⟨n, run, sent⟩ := reached
  have readable : Persister.Readable {} := Aligned.nil
  exact ⟨n, run, sent, (apply_messages_in_order readable run).2⟩

/-- The apply loop has taken an entry when a snapshot is installed, and sends it
afterwards.  Every write to the disk succeeds. -/
def overtakenEntry : List NodeAction :=
  [.appendEntries ⟨1, 1, 0, 0, [⟨1, 1, [7]⟩], 1⟩ {}, .takeEntry,
    .installSnapshot ⟨1, 1, 5, 1, [5]⟩ {}, .sendEntry]

/-- A command with index `1` is sent after a snapshot up to index `5`. -/
theorem command_sent_after_snapshot :
    ∃ n, Run step (fun _ a => a ≠ .restart) (init ⟨0, [1, 2], 1⟩ {}) n ∧
      n.sent = [.snapshot [5] 5 1, .command [7] 1] :=
  exists_run_of_perform overtakenEntry _ (by decide +kernel)

end Node

end DistribKV
