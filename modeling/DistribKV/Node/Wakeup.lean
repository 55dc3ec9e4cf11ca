import DistribKV.Raft.Log
import DistribKV.Node.Model

/-!
# Waking the apply loop

The apply loop parks on `commitCh`, a channel with one slot, and drains the
committed entries each time it is woken.  A signal that finds the slot full is
dropped.  The loop is here a program point beside the node: parked, or awake
between two entries, or about to send the entry it has taken.
-/

namespace DistribKV

open Consensus

namespace Raft

/-! ## Signals -/

/-- What the apply loop waits for: the commit index and the slot of `commitCh`. -/
def wakeup (r : Raft) : Nat × Bool := (r.commitIndex, r.commitCh)

section Wakeup

variable (r : Raft)

@[simp] theorem wakeup_adoptTerm (term : Nat) : (r.adoptTerm term).wakeup = r.wakeup := by
  unfold adoptTerm
  split <;> rfl

@[simp] theorem wakeup_hearFromLeader (leaderId : Int) :
    (r.hearFromLeader leaderId).wakeup = r.wakeup := by
  unfold hearFromLeader
  split <;> rfl

@[simp] theorem wakeup_hearSnapshot (req : InstallSnapshotRequest) :
    (r.hearSnapshot req).wakeup = r.wakeup := by
  unfold hearSnapshot
  split <;> rfl

end Wakeup

/-- Whoever moves the commit index past what has been applied leaves a signal, and
the log reaches the new index. -/
structure Signals (r r' : Raft) : Prop where
  kept : r.commitCh = true → r'.commitCh = true
  moved : r'.commitIndex = r.commitIndex ∨
    r'.commitCh = true ∧ r'.commitIndex ≤ r'.logBase + r'.log.length ∨
    r'.commitIndex ≤ r'.lastApplied

namespace Signals

variable {r base r' : Raft}

theorem of_same (same : r'.wakeup = r.wakeup) : Signals r r' := by
  obtain ⟨index, slot⟩ := Prod.mk.inj same
  exact ⟨fun full => slot.trans full, .inl index⟩

theorem of_base (signals : Signals base r') (same : base.wakeup = r.wakeup) :
    Signals r r' := by
  obtain ⟨index, slot⟩ := Prod.mk.inj same
  constructor
  · rw [← slot]
    exact signals.kept
  · rw [← index]
    exact signals.moved

theorem advanceCommit {req : AppendEntriesRequest}
    (reaches : req.prevLogIndex + req.entries.length ≤ r.logBase + r.log.length) :
    Signals r (r.advanceCommit req) := by
  have capped : (if req.leaderCommit > req.prevLogIndex + req.entries.length then
      req.prevLogIndex + req.entries.length else req.leaderCommit) ≤
        r.logBase + r.log.length := by
    split <;> omega
  unfold Raft.advanceCommit
  simp only
  generalize (if req.leaderCommit > req.prevLogIndex + req.entries.length then
    req.prevLogIndex + req.entries.length else req.leaderCommit) = newCommit at *
  split
  · split
    · exact ⟨fun _ => rfl, .inr (.inl ⟨rfl, capped⟩)⟩
    · exact .of_same rfl
  · exact .of_same rfl

theorem updateCommitIndex (r : Raft) : Signals r r.updateCommitIndex := by
  rcases r.updateCommitIndex_cases with same | ⟨n, entry, -, above, found, -, -, moved⟩
  · exact .of_same (by rw [same])
  · rw [moved]
    refine ⟨fun _ => rfl, .inr (.inl ⟨rfl, ?_⟩)⟩
    unfold entryAt at found
    split at found
    · have inLog := (List.getElem?_eq_some_iff.mp found).1
      simp only
      omega
    · cases found

end Signals

/-! ## Requests that respect the commit index -/

/-- The index from which a request cuts the log: that of the first entry which an
accepted request contradicts. -/
def truncatesAt (r : Raft) (req : AppendEntriesRequest) : Option Nat :=
  let offset := req.prevLogIndex - r.logBase
  let kept := agreeing (r.log.drop offset) req.entries
  if r.currentTerm ≤ req.term ∧ r.prevLogOk req ∧ kept < req.entries.length ∧
      offset + kept < r.log.length then
    some (req.prevLogIndex + kept + 1)
  else none

namespace Accepts

variable {r : Raft} {req : AppendEntriesRequest} {log : List LogEntry} {modified : Bool}

/-- The log an accepted request leaves reaches the request's last entry. -/
theorem reaches (accepts : Accepts r req log modified) :
    req.prevLogIndex + req.entries.length ≤ r.logBase + log.length := by
  have result := accepts.result
  rcases accepts.reach with none | ⟨inside, reach⟩
  · rw [none] at result
    simp only [agreeing_nil_right, List.length_nil, if_true] at result
    cases result
    rcases Nat.eq_zero_or_pos req.prevLogIndex with zero | positive
    · simp [none, zero]
    · obtain ⟨k, entry, position, found, -⟩ := entry_of_prevLogOk accepts.consistent positive
      have inLog := (List.getElem?_eq_some_iff.mp found).1
      rw [none, List.length_nil]
      omega
  · have held := agreeing_le_left (r.log.drop (req.prevLogIndex - r.logBase)) req.entries
    have sent := agreeing_le_right (r.log.drop (req.prevLogIndex - r.logBase)) req.entries
    rw [List.length_drop] at held
    simp only at result
    split at result
    · cases result
      omega
    · cases result
      rw [List.length_append, List.length_take, List.length_drop]
      omega

/-- Unless it cuts below the commit index, an accepted request leaves a log that
still reaches it. -/
theorem retains (accepts : Accepts r req log modified)
    (above : ∀ index ∈ r.truncatesAt req, r.commitIndex < index)
    (retained : r.commitIndex ≤ r.logBase + r.log.length) :
    r.commitIndex ≤ r.logBase + log.length := by
  have result := accepts.result
  have held := agreeing_le_left (r.log.drop (req.prevLogIndex - r.logBase)) req.entries
  have sent := agreeing_le_right (r.log.drop (req.prevLogIndex - r.logBase)) req.entries
  rw [List.length_drop] at held
  simp only [truncatesAt] at above
  simp only at result
  generalize agreeing (r.log.drop (req.prevLogIndex - r.logBase)) req.entries = kept at *
  split at result
  · cases result
    exact retained
  next partly =>
    cases result
    rw [List.length_append, List.length_take, List.length_drop]
    rcases Nat.lt_or_ge (req.prevLogIndex - r.logBase + kept) r.log.length with cuts | extends'
    · have reach := accepts.reach
      have fewer : kept < req.entries.length := by omega
      have cut := above (req.prevLogIndex + kept + 1) (by
        rw [if_pos ⟨accepts.current, accepts.consistent, fewer, cuts⟩]
        rfl)
      rcases reach with none | ⟨inside, -⟩
      · simp [none] at partly sent
        omega
      · omega
    · omega

end Accepts

/-! ## The handlers -/

namespace Signals

variable {r r' : Raft} {disk : Disk}

theorem requestVote {req : RequestVoteRequest} {reply : Except String RequestVoteResponse}
    (called : r.requestVote req disk = (r', reply)) : Signals r r' := by
  have adopted := r.wakeup_adoptTerm req.term
  cases requestVote_path called with
  | stale lower => exact .of_same rfl
  | refused current refuses => exact .of_same adopted
  | unsaved current failed => exact .of_same adopted
  | granted grants =>
      rw [grants.result]
      exact .of_same adopted

theorem appendEntries {req : AppendEntriesRequest}
    {reply : Except String AppendEntriesResponse}
    (called : r.appendEntries req disk = some (r', reply)) : Signals r r' := by
  have same {heard : Raft}
      (hears : heard = (r.adoptTerm req.term).hearFromLeader req.leaderId) :
      heard.wakeup = r.wakeup := by simp [hears]
  have reaches {heard : Raft} {log : List LogEntry} {modified : Bool}
      (hears : heard = (r.adoptTerm req.term).hearFromLeader req.leaderId)
      (accepts : Accepts r req log modified) :
      req.prevLogIndex + req.entries.length ≤ heard.logBase + log.length := by
    rw [(hears_leader accepts.current hears).1.logBase]
    exact accepts.reaches
  cases appendEntries_path called with
  | stale lower => exact .of_same rfl
  | refused current hears => exact .of_same (same hears)
  | unsaved hears accepts =>
      have told := same hears
      exact .of_same told
  | stored hears accepts =>
      have told := same hears
      have reaches := reaches hears accepts
      exact .of_base (.advanceCommit reaches) told
  | unchanged hears accepts =>
      have told := same hears
      have reaches := reaches hears accepts
      exact .of_base (.advanceCommit reaches) told

theorem installSnapshot {req : InstallSnapshotRequest}
    {reply : Except String InstallSnapshotResponse}
    (called : r.installSnapshot req disk = (r', reply)) : Signals r r' := by
  have same {heard : Raft} (hears : heard = r.hearSnapshot req) : heard.wakeup = r.wakeup := by
    simp [hears]
  -- the commit index moves to the index that counts as applied
  have moved {heard r' : Raft} (hears : heard = r.hearSnapshot req)
      (installs : Installs r req heard) (slot : r'.commitCh = heard.commitCh)
      (index : r'.commitIndex = (heard.install req).commitIndex)
      (applied : r'.lastApplied = req.lastIncludedIndex) : Signals r r' := by
    have fresh : heard.commitIndex < req.lastIncludedIndex := by
      rw [installs.yields.commitIndex]
      exact installs.fresh
    refine .of_base ⟨fun full => slot.trans full, .inr (.inr ?_)⟩ (same hears)
    rw [index, applied, install, if_pos fresh]
  cases installSnapshot_path called with
  | oversized large => exact .of_same rfl
  | stale small lower => exact .of_same rfl
  | discarded hears small current useless => exact .of_same (same hears)
  | unsaved hears installs => exact moved hears installs rfl rfl rfl
  | unsavedSnapshot hears installs => exact moved hears installs rfl rfl rfl
  | unqueued hears installs => exact moved hears installs rfl rfl rfl
  | installed hears installs => exact moved hears installs rfl rfl rfl

theorem requestVoteReply {term : Nat} {resp : RequestVoteResponse} {elected : Bool}
    (called : r.handleRequestVoteResponse term resp = (r', elected)) : Signals r r' := by
  cases handleRequestVoteResponse_path called with
  | ignored => exact .of_same rfl
  | demoted campaigns current higher => exact .of_same rfl
  | counted campaigns current granted => exact .of_same rfl

theorem appendEntriesReply {peer : Int} {req : AppendEntriesRequest}
    {resp : AppendEntriesResponse} {retry : Bool}
    (called : r.handleAppendEntriesResponse peer req resp = (r', retry)) : Signals r r' := by
  cases handleAppendEntriesResponse_path called with
  | ignored => exact .of_same rfl
  | demoted leads current higher => exact .of_same rfl
  | recorded leads current success => exact .of_base (.updateCommitIndex _) rfl
  | retried leads current => exact .of_same rfl

theorem installSnapshotReply {peer : Int} {req : InstallSnapshotRequest}
    {resp : InstallSnapshotResponse} (path : InstallSnapshotReplyPath r peer req resp r') :
    Signals r r' := by
  cases path with
  | ignored => exact .of_same rfl
  | demoted leads current higher => exact .of_same rfl
  | recorded leads current lower => exact .of_base (.updateCommitIndex _) rfl

end Signals

end Raft

/-- A step of a node next to its apply loop, other than a restart. -/
def NodeAction.besideLoop : NodeAction → Bool
  | .takeEntry | .sendEntry | .restart => false
  | _ => true

namespace Node

variable {n n' : Node} {a : NodeAction}

/-- No handler moves the commit index without a signal. -/
theorem signals_of_step (stepped : n.step a = some n') (beside : a.besideLoop) :
    n.raft.Signals n'.raft := by
  cases a with
  | becomeCandidate disk =>
      cases stepped
      cases called : n.raft.becomeCandidate disk with
      | mk r campaign =>
          rcases Raft.becomeCandidate_cases called with
            ⟨rfl, -⟩ | ⟨-, ⟨rfl, -⟩ | ⟨rfl, -⟩⟩ <;> exact .of_same rfl
  | requestVoteReply term resp =>
      cases stepped
      exact .requestVoteReply rfl
  | becomeLeader =>
      cases stepped
      rcases n.raft.becomeLeader_cases with same | ⟨-, promoted⟩
      · exact .of_same (by rw [same])
      · exact .of_same (by rw [promoted]; rfl)
  | requestVote req disk =>
      simp only [step] at stepped
      cases called : n.raft.requestVote req disk with
      | mk r reply =>
          rw [called] at stepped
          cases reply <;> cases stepped <;> exact .requestVote called
  | appendEntries req disk =>
      simp only [step] at stepped
      split at stepped
      · cases stepped
      next called =>
        cases stepped
        exact .appendEntries called
  | appendEntriesReply peer req resp =>
      cases stepped
      exact .appendEntriesReply rfl
  | installSnapshot req disk =>
      cases stepped
      exact .installSnapshot rfl
  | installSnapshotReply peer req resp =>
      cases stepped
      exact .installSnapshotReply (n.raft.handleInstallSnapshotResponse_path peer req resp)
  | replicate cmd disk =>
      cases stepped
      cases called : n.raft.replicateCommand cmd disk with
      | mk r result =>
          rcases Raft.replicateCommand_cases called with
            ⟨rfl, -⟩ | ⟨-, entry, -, -, rfl⟩
          · exact .of_same rfl
          · exact .of_base (.updateCommitIndex _) rfl
  | snapshot index data disk =>
      cases stepped
      cases called : n.raft.snapshotUpTo index data disk with
      | mk r err =>
          rcases Raft.snapshotUpTo_cases called with
            rfl | ⟨-, -, entry, -, -, ⟨rfl, -⟩ | ⟨rfl, -⟩ | ⟨rfl, -⟩⟩ <;> exact .of_same rfl
  | consume =>
      cases stepped
      exact .of_same rfl
  | takeEntry => cases beside
  | sendEntry => cases beside
  | restart => cases beside

theorem step_takeEntry_of_some (n : Node) {r : Raft} {msg : ApplyMsg}
    (idle : n.applying = none) (taken : n.raft.takeEntry = some (r, msg)) :
    n.step .takeEntry = some { n with raft := r, applying := some msg } := by
  simp only [step, idle, taken]

theorem step_takeEntry_of_none (n : Node) (idle : n.applying = none)
    (taken : n.raft.takeEntry = none) : n.step .takeEntry = none := by
  simp only [step, idle, taken]

end Node

/-! ## The loop -/

/-- A node with the program point of its apply loop.  `taken` is the index of the
entry the loop took last, `delivered` the highest index placed on the apply channel. -/
structure ApplyLoop where
  node : Node
  awake : Bool := false
  taken : Nat := 0
  delivered : Nat
  deriving DecidableEq, Repr

/-- One step of the loop, or one of the node beside it. -/
inductive LoopAction where
  | node (a : NodeAction)
  | wake
  | turn
  | send
  deriving DecidableEq, Repr

namespace ApplyLoop

/-- A started node.  What it recovered is a snapshot on the apply channel. -/
def init (cfg : Config) (persister : Persister) : ApplyLoop where
  node := .init cfg persister
  delivered := (Raft.newRaft cfg persister).logBase

def step (l : ApplyLoop) : LoopAction → Option ApplyLoop
  | .node a =>
      if a.besideLoop then
        (l.node.step a).map fun n =>
          { l with
            node := n
            delivered := (n.sent.drop l.node.sent.length).foldl
              (fun highest msg => max highest msg.index) l.delivered }
      else none
  -- `case <-r.commitCh`
  | .wake =>
      if l.awake = false ∧ l.node.raft.commitCh = true then
        some { l with
          node := { l.node with raft := { l.node.raft with commitCh := false } }
          awake := true }
      else none
  -- one turn of `applyPendingEntries` under the lock: it takes an entry or returns
  | .turn =>
      if l.awake = true ∧ l.node.applying = none then
        match l.node.step .takeEntry with
        | some n => some { l with node := n, taken := n.raft.lastApplied }
        | none => some { l with awake := false }
      else none
  | .send =>
      (l.node.step .sendEntry).map fun n =>
        { l with node := n, delivered := max l.delivered l.taken }

/-- No request cuts the log at or below the commit index, and the application only
compacts what it has been given. -/
@[reducible] def Respects (l : ApplyLoop) : NodeAction → Prop
  | .appendEntries req _ =>
      ∀ index ∈ l.node.raft.truncatesAt req, l.node.raft.commitIndex < index
  | .snapshot index _ _ => index ≤ l.delivered
  | _ => True

instance (l : ApplyLoop) : DecidablePred l.Respects := NodeAction.decidable _

def Respected (l : ApplyLoop) : LoopAction → Prop
  | .node a => l.Respects a
  | _ => True

instance (l : ApplyLoop) : DecidablePred l.Respected
  | .node a => inferInstanceAs (Decidable (l.Respects a))
  | .wake | .turn | .send => .isTrue trivial

/-- Everything between base and commit index is applied or in the log, and a parked
loop has nothing left to do unless it has been signalled. -/
structure Watchful (l : ApplyLoop) : Prop where
  based : l.node.raft.logBase ≤ l.node.raft.lastApplied
  committed : l.node.raft.lastApplied ≤ l.node.raft.commitIndex
  taken : l.taken ≤ l.node.raft.lastApplied
  delivered : l.delivered ≤ l.node.raft.lastApplied
  retained : l.node.raft.lastApplied < l.node.raft.commitIndex →
    l.node.raft.commitIndex ≤ l.node.raft.logBase + l.node.raft.log.length
  signalled : l.awake = false → l.node.raft.commitCh = false →
    l.node.raft.commitIndex ≤ l.node.raft.lastApplied

namespace Watchful

variable {l l' : ApplyLoop}

theorem initial (cfg : Config) {persister : Persister}
    (whole : persister.snapshotFile = none ∨ persister.log = []) :
    (init cfg persister).Watchful := by
  have started : (init cfg persister).node.raft = (Raft.newRaft cfg persister).start := rfl
  have recovered : (Raft.newRaft cfg persister).logBase ≤
        (Raft.newRaft cfg persister).lastApplied ∧
      (Raft.newRaft cfg persister).lastApplied =
        (Raft.newRaft cfg persister).commitIndex := by
    cases file : persister.snapshotFile with
    | none =>
        rw [Raft.newRaft_of_noSnapshot cfg file]
        exact ⟨Nat.zero_le _, rfl⟩
    | some snapshot =>
        cases stored : persister.hardState with
        | none =>
            rw [Raft.newRaft_of_blank cfg stored]
            exact ⟨Nat.le_refl _, rfl⟩
        | some state =>
            have empty := whole.resolve_left (by simp [file])
            rw [Raft.newRaft_of_snapshot cfg (by simp [stored]) file]
            simp [empty]
  obtain ⟨based, same⟩ := recovered
  refine ⟨?_, ?_, Nat.zero_le _, based, ?_, ?_⟩
  · rw [started]
    exact based
  · rw [started]
    exact same.le
  · rw [started]
    exact fun behind => absurd same (Nat.ne_of_lt behind)
  · rw [started]
    exact fun _ _ => same.ge

end Watchful

/-- What a step beside the loop leaves: base, log and apply index move together. -/
structure Advances (l : ApplyLoop) (n : Node) : Prop where
  based : n.raft.logBase ≤ n.raft.lastApplied
  forward : l.node.raft.lastApplied ≤ n.raft.lastApplied
  committed : n.raft.lastApplied ≤ n.raft.commitIndex
  delivered : (n.sent.drop l.node.sent.length).foldl (fun highest msg => max highest msg.index)
    l.delivered ≤ n.raft.lastApplied
  retains : n.raft.lastApplied < n.raft.commitIndex →
    l.node.raft.commitIndex ≤ l.node.raft.logBase + l.node.raft.log.length →
    l.node.raft.commitIndex ≤ n.raft.logBase + n.raft.log.length

namespace Advances

variable {l : ApplyLoop} {n : Node} {a : NodeAction}

/-- A step that moves neither base nor apply index nor channel, and keeps the log up
to the commit index. -/
theorem of_same (watchful : l.Watchful) (base : n.raft.logBase = l.node.raft.logBase)
    (applied : n.raft.lastApplied = l.node.raft.lastApplied)
    (commit : l.node.raft.commitIndex ≤ n.raft.commitIndex) (sent : n.sent = l.node.sent)
    (retains : l.node.raft.commitIndex ≤ l.node.raft.logBase + l.node.raft.log.length →
      l.node.raft.commitIndex ≤ l.node.raft.logBase + n.raft.log.length) :
    l.Advances n := by
  refine ⟨?_, applied.ge, ?_, ?_, fun _ => ?_⟩
  · rw [base, applied]
    exact watchful.based
  · rw [applied]
    exact watchful.committed.trans commit
  · rw [sent, List.drop_length, List.foldl_nil, applied]
    exact watchful.delivered
  · rw [base]
    exact retains

theorem of_step (watchful : l.Watchful) (respected : l.Respected (.node a))
    (beside : a.besideLoop) (stepped : l.node.step a = some n) : l.Advances n := by
  have same : ∀ {log : List LogEntry}, log = l.node.raft.log →
      l.node.raft.commitIndex ≤ l.node.raft.logBase + l.node.raft.log.length →
      l.node.raft.commitIndex ≤ l.node.raft.logBase + log.length := by
    intro log same reaches
    rw [same]
    exact reaches
  cases Node.effect_of_step stepped with
  | yield yields =>
      exact of_same watchful yields.logBase yields.lastApplied yields.commitIndex.ge rfl
        (same yields.log)
  | stand stood =>
      rcases stood with rfl | rfl <;>
        exact of_same watchful rfl rfl (Nat.le_refl _) rfl (same rfl)
  | @grant req disk r grants =>
      have yields := Raft.Yields.adoptTerm l.node.raft req.term
      rw [grants.result]
      exact of_same watchful yields.logBase yields.lastApplied yields.commitIndex.ge rfl
        (same yields.log)
  | lead led commit =>
      subst led
      exact of_same watchful rfl rfl commit rfl (same rfl)
  | write _ stored commit =>
      subst stored
      refine of_same watchful rfl rfl commit rfl fun reaches => ?_
      simp only [Raft.saved, List.length_append]
      omega
  | append yields accepts stored _ commit =>
      subst stored
      exact of_same watchful yields.logBase yields.lastApplied commit rfl
        (accepts.retains respected)
  | @compact index data disk entry r persister above _ found compacted =>
      subst compacted
      have sent : l.node.sent.drop l.node.sent.length = [] := List.drop_length
      refine ⟨le_trans respected watchful.delivered, Nat.le_refl _, watchful.committed, ?_,
        fun _ reaches => ?_⟩
      · rw [sent]
        exact watchful.delivered
      · simp only [Raft.compact, List.length_drop]
        omega
  | @install req disk heard r persister queued _ installs installed _ queue =>
      subst installed
      have forward : l.node.raft.lastApplied ≤ req.lastIncludedIndex :=
        watchful.committed.trans installs.fresh.le
      have commit : (heard.install req).commitIndex = req.lastIncludedIndex :=
        if_pos (installs.yields.commitIndex ▸ installs.fresh)
      refine ⟨Nat.le_refl _, forward, commit.ge, ?_, fun behind => ?_⟩
      · have before := watchful.delivered.trans forward
        rw [List.drop_left]
        rcases queue with ⟨rfl, -⟩ | rfl
        · exact before
        · exact Nat.max_le.mpr ⟨before, Nat.le_refl _⟩
      · exact absurd commit (Nat.ne_of_gt behind)
  | consume => exact of_same watchful rfl rfl (Nat.le_refl _) rfl (same rfl)
  | take => cases beside
  | send => cases beside
  | restart => cases beside

end Advances

namespace Watchful

variable {l l' : ApplyLoop}

/-- A step of the node beside the loop. -/
theorem beside {a : NodeAction} (watchful : l.Watchful) (respected : l.Respected (.node a))
    (stepped : l.step (.node a) = some l') : l'.Watchful := by
  simp only [step] at stepped
  split at stepped
  next beside =>
    obtain ⟨n, moved, rfl⟩ := Option.map_eq_some_iff.mp stepped
    have advances := Advances.of_step watchful respected beside moved
    have signals := Node.signals_of_step moved beside
    have forward := advances.forward
    refine ⟨advances.based, advances.committed, watchful.taken.trans forward,
      advances.delivered, fun behind => ?_, fun parked empty => ?_⟩
    · rcases signals.moved with same | ⟨-, reaches⟩ | applied
      · dsimp only at behind ⊢
        rw [same]
        exact advances.retains behind (watchful.retained (by omega))
      · exact reaches
      · exact absurd applied (Nat.not_le.mpr behind)
    · -- an empty slot was empty before
      have wasEmpty : l.node.raft.commitCh = false := by
        by_contra full
        exact nomatch empty.symm.trans (signals.kept (Bool.of_not_eq_false full))
      rcases signals.moved with same | ⟨full, -⟩ | applied
      · have before := watchful.signalled parked wasEmpty
        dsimp only
        omega
      · exact nomatch empty.symm.trans full
      · exact applied
  · cases stepped

/-- The loop goes back to sleep only when nothing is left: whatever lies between
apply and commit index is in the log. -/
theorem caughtUp_of_takeEntry (watchful : l.Watchful)
    (nothing : l.node.raft.takeEntry = none) :
    l.node.raft.commitIndex ≤ l.node.raft.lastApplied := by
  by_contra behind
  have behind := Nat.not_le.mp behind
  have reaches := watchful.retained behind
  have based := watchful.based
  have inLog : l.node.raft.lastApplied - l.node.raft.logBase < l.node.raft.log.length := by omega
  have position : ((l.node.raft.lastApplied + 1 : Nat) : Int) - l.node.raft.logBase - 1 =
      ((l.node.raft.lastApplied - l.node.raft.logBase : Nat) : Int) := by omega
  rw [Raft.takeEntry, if_neg (Nat.not_le.mpr behind)] at nothing
  simp only [position, entryAt_natCast, List.getElem?_eq_getElem inLog] at nothing
  cases nothing

theorem turn (watchful : l.Watchful) (stepped : l.step .turn = some l') : l'.Watchful := by
  simp only [step] at stepped
  split at stepped
  next ready =>
    obtain ⟨awake, idle⟩ := ready
    cases taken : l.node.raft.takeEntry with
    | some result =>
        obtain ⟨r, msg⟩ := result
        obtain ⟨pending, entry, -, rfl, -⟩ := Raft.takeEntry_cases taken
        rw [l.node.step_takeEntry_of_some idle taken] at stepped
        cases stepped
        obtain ⟨based, committed, -, delivered, retained, -⟩ := watchful
        refine ⟨Nat.le_succ_of_le based, pending, Nat.le_refl _, Nat.le_succ_of_le delivered,
          fun _ => retained pending, fun parked => nomatch parked.symm.trans awake⟩
    | none =>
        rw [l.node.step_takeEntry_of_none idle taken] at stepped
        cases stepped
        exact ⟨watchful.based, watchful.committed, watchful.taken, watchful.delivered,
          watchful.retained, fun _ _ => watchful.caughtUp_of_takeEntry taken⟩
  · cases stepped

theorem wake (watchful : l.Watchful) (stepped : l.step .wake = some l') : l'.Watchful := by
  simp only [step] at stepped
  split at stepped
  · cases stepped
    obtain ⟨based, committed, taken, delivered, retained, -⟩ := watchful
    exact ⟨based, committed, taken, delivered, retained, fun parked => nomatch parked⟩
  · cases stepped

theorem send (watchful : l.Watchful) (stepped : l.step .send = some l') : l'.Watchful := by
  simp only [step, Node.step] at stepped
  obtain ⟨n, sent, rfl⟩ := Option.map_eq_some_iff.mp stepped
  obtain ⟨based, committed, taken, delivered, retained, signalled⟩ := watchful
  split at sent
  · cases sent
  · split at sent
    · cases sent
    next r queued =>
      rw [Raft.sendEntry_eq queued] at sent
      cases sent
      exact ⟨based, committed, taken, Nat.max_le.mpr ⟨delivered, taken⟩, retained, signalled⟩

theorem preserved {a : LoopAction} (watchful : l.Watchful) (respected : l.Respected a)
    (stepped : l.step a = some l') : l'.Watchful := by
  cases a with
  | node b => exact watchful.beside respected stepped
  | wake => exact watchful.wake stepped
  | turn => exact watchful.turn stepped
  | send => exact watchful.send stepped

end Watchful

/-- No wake-up of the apply loop is lost: in every state that a started node reaches
without restart and in which the loop is parked with an empty slot, everything
committed has been applied.  Requests are arbitrary as long as none cuts the log at
or below the commit index, disks may fail, and the application compacts what has
been delivered.  The node starts on any stored term, vote and log, with no snapshot
or with one that covers the whole log. -/
theorem no_lost_wakeup {cfg : Config} {persister : Persister} {l : ApplyLoop}
    (whole : persister.snapshotFile = none ∨ persister.log = [])
    (run : Run step Respected (init cfg persister) l) (parked : l.awake = false)
    (empty : l.node.raft.commitCh = false) :
    l.node.raft.commitIndex ≤ l.node.raft.lastApplied := by
  have watchful : l.Watchful := by
    apply run.invariant
    · exact .initial cfg whole
    · exact fun watchful respected stepped => watchful.preserved respected stepped
  exact watchful.signalled parked empty

/-- Two entries are committed by one request and a third one while the loop is at
work, so that a signal waits in the slot; then the application compacts. -/
def busyLoop : List LoopAction :=
  [.node (.appendEntries ⟨1, 1, 0, 0, [⟨1, 1, [1]⟩, ⟨2, 1, [2]⟩], 2⟩ {}), .wake, .turn,
    .node (.appendEntries ⟨1, 1, 2, 1, [⟨3, 1, [3]⟩], 3⟩ {}), .send, .turn, .send, .turn, .send,
    .node (.snapshot 2 [7] {}), .turn, .wake, .turn]

/-- The loop parks with everything applied. -/
theorem no_lost_wakeup_busy :
    ∃ l, Run step Respected (init ⟨0, [1, 2], 0⟩ {}) l ∧
      (l.awake = false ∧ l.node.raft.commitCh = false ∧ l.node.raft.commitIndex = 3 ∧
        l.node.raft.logBase = 2) ∧
      l.node.raft.commitIndex ≤ l.node.raft.lastApplied := by
  obtain ⟨l, run, idle⟩ :
      ∃ l, Run step Respected (init ⟨0, [1, 2], 0⟩ {}) l ∧
        l.awake = false ∧ l.node.raft.commitCh = false ∧ l.node.raft.commitIndex = 3 ∧
        l.node.raft.logBase = 2 :=
    exists_run_of_perform busyLoop _ (by decide +kernel)
  exact ⟨l, run, idle, no_lost_wakeup (.inl rfl) run idle.1 idle.2.1⟩

/-- Recovery from a snapshot counts the stored entries after it as committed and
signals nothing: the loop of such a node starts parked behind the commit index. -/
theorem unsignalled_of_recovered_tail {cfg : Config} {persister : Persister}
    {file : SnapshotFile} {last : LogEntry} (stored : persister.hardState.isSome)
    (snapshot : persister.snapshotFile = some file)
    (tail : persister.log.getLast? = some last) (after : file.lastIncludedIndex < last.index) :
    (init cfg persister).awake = false ∧
      (init cfg persister).node.raft.wakeup = (last.index, false) ∧
      (init cfg persister).node.raft.lastApplied = file.lastIncludedIndex := by
  have started : (init cfg persister).node.raft = (Raft.newRaft cfg persister).start := rfl
  rw [started, Raft.newRaft_of_snapshot cfg stored snapshot, tail]
  refine ⟨rfl, ?_, rfl⟩
  simp [Raft.start, Raft.wakeup, Raft.fresh, Nat.max_eq_right after.le]

end ApplyLoop

end DistribKV
