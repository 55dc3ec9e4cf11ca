import DistribKV.Cluster.Flat

/-!
# The register of a run

The commitment argument is made over abstract registers.  The register of a
cluster takes its ledger, acknowledgements and ballots from the history and its
logs from the nodes.  What a node has promised and what it can fall back to
depends on the faults considered: without crashes a node can rely on its memory,
with crashes on what it has stored.  A `View` is such a reading of a node.
-/

namespace DistribKV

open Consensus

/-- The highest position every node has acknowledged in every term. -/
def ackOf : List Event → Int → Nat → Nat
  | [] => fun _ _ => 0
  | .acknowledged i term upTo :: history =>
      Function.update (ackOf history) i
        (Function.update (ackOf history i) term (max (ackOf history i term) upTo))
  | _ :: history => ackOf history

/-- A reading of promises and fall-back logs, trustworthy as far as its laws
go. -/
structure View where
  promise : Raft → Nat
  stable : Raft → List LogEntry
  /-- Nobody promises more than its own term. -/
  promise_le : ∀ r, r.persister.term ≤ r.currentTerm → promise r ≤ r.currentTerm
  /-- A node that has stored its state relies on it. -/
  saved : ∀ r, r.persister.term = r.currentTerm → r.persister.log = r.log →
    promise r = r.currentTerm ∧ stable r = r.log
  /-- A node that stores nothing keeps what it relies on. -/
  unsaved : ∀ r r', r'.persister = r.persister → r.currentTerm ≤ r'.currentTerm →
    promise r ≤ promise r' ∧ (stable r' = stable r ∨ stable r' = r'.log)
  /-- A node that can rely on a non-empty log is bound by its term. -/
  settled : ∀ r, stable r ≠ [] → promise r = r.currentTerm

namespace View

/-- Nodes that never crash rely on their memory. -/
def memory : View where
  promise r := r.currentTerm
  stable r := r.log
  promise_le _ _ := le_rfl
  saved _ _ _ := ⟨rfl, rfl⟩
  unsaved _ _ _ le := ⟨le, .inr rfl⟩
  settled _ _ := rfl

/-- Nodes that may crash rely on their disk.  The term in memory counts only
when there is a stored log, which must not come back in an older term. -/
def disk : View where
  promise r := if r.persister.log = [] then r.persister.term else r.currentTerm
  stable r := r.persister.log
  promise_le r stored := by
    split
    · exact stored
    · exact le_rfl
  saved r term log := by
    refine ⟨?_, log⟩
    split
    · exact term
    · rfl
  unsaved r r' persister le := by
    rw [persister]
    refine ⟨?_, .inl rfl⟩
    split
    · exact le_rfl
    · exact le
  settled _ nonempty := if_neg nonempty

/-- The register of a cluster under a view. -/
def register (view : View) (s : Cluster) : Register Int LogEntry where
  toLedger := s.ledger
  promise i := view.promise (s.node i)
  ack := ackOf s.history
  log i := (s.node i).log
  stable i := view.stable (s.node i)
  ballots ballot := ∃ req, .granted ballot.voter ballot.term req ∈ s.history ∧
    ballot.claimed = Cluster.claimed req

/-- A node that stores its state or keeps what it has stored relies on no less
than before. -/
theorem moves (view : View) {r r' : Raft} (stores : Cluster.Stores r r')
    (le : r.currentTerm ≤ r'.currentTerm) (stored : r.persister.term ≤ r.currentTerm) :
    view.promise r ≤ view.promise r' ∧
      (view.stable r' = view.stable r ∨ view.stable r' = r'.log) := by
  cases stores with
  | kept persister => exact view.unsaved r r' persister le
  | saved term log =>
      obtain ⟨promise, stable⟩ := view.saved r' term log
      rw [promise]
      exact ⟨(view.promise_le r stored).trans le, .inr stable⟩

end View

namespace Cluster

variable {m : Membership} {view : View} {s s' : Cluster} {a : Action} {o : Outcome}

@[simp] theorem ackOf_commitEvent (i : Int) (folded : List LogEntry) (r r' : Raft)
    (history : List Event) :
    ackOf (commitEvent i folded r r' ++ history) = ackOf history := by
  unfold commitEvent
  split <;> rfl

/-! ## Durable state -/

/-- The stored term and log are past states of the node. -/
structure Stored (g : Ledger Int LogEntry) (r : Raft) : Prop where
  term_le : r.persister.term ≤ r.currentTerm
  aligned : Aligned 0 r.persister.log
  rooted : g.Rooted LogEntry.term r.persister.log
  bounded : ∀ entry ∈ r.persister.log, entry.term ≤ r.persister.term

theorem Stored.of_stores {g h : Ledger Int LogEntry} {r r' : Raft}
    (stored : Stored g r) (stores : Stores r r') (extension : g.Extends h)
    (term_le : r'.persister = r.persister → r'.persister.term ≤ r'.currentTerm)
    (aligned : Aligned 0 r'.log) (rooted : h.Rooted LogEntry.term r'.log)
    (bounded : ∀ entry ∈ r'.log, entry.term ≤ r'.currentTerm) : Stored h r' := by
  cases stores with
  | kept persister =>
      have le := term_le persister
      rw [persister] at le
      exact ⟨by rwa [persister], by rw [persister]; exact stored.aligned,
        by rw [persister]; exact stored.rooted.extend extension,
        by rw [persister]; exact stored.bounded⟩
  | saved term log =>
      exact ⟨term.le, log ▸ aligned, log ▸ rooted, by rw [log, term]; exact bounded⟩

end Cluster

end DistribKV
