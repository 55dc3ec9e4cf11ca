import DistribKV.Cluster.StateMachineSafety
import DistribKV.Node.Model

/-!
# Acknowledged entries and the disk

A leader counts a successful answer to `AppendEntries` towards a commit, so the
entries it confirms should be on the disk of the follower.  The handler stores its
log only when the call at hand has changed it.  A call that fails to store leaves
its entries in memory, and when the leader sends them again there is nothing left
to change: the repetition is confirmed, with the disk still as it was.

The runs of this module are those of one follower that serves `AppendEntries`
calls, with a disk that may fail at any of them.
-/

namespace DistribKV

/-- Entries respect log matching: the command of an entry is determined by its
absolute index and its term. -/
def Respects (command : Nat → Nat → Bytes) (base : Nat) (log : List LogEntry) : Prop :=
  ∀ k entry, log[k]? = some entry → entry.command = command (base + k + 1) entry.term

namespace Respects

variable {command : Nat → Nat → Bytes} {base : Nat} {log other : List LogEntry}

@[simp] theorem nil : Respects command base [] := by
  intro k entry found
  simp at found

theorem append_iff :
    Respects command base (log ++ other) ↔
      Respects command base log ∧ Respects command (base + log.length) other := by
  constructor
  · intro respects
    constructor
    · intro k entry found
      apply respects k entry
      rw [List.getElem?_append_left (List.getElem?_eq_some_iff.mp found).1]
      exact found
    · intro k entry found
      have command := respects (log.length + k) entry (by
        rw [List.getElem?_append_right (Nat.le_add_right _ _), Nat.add_sub_cancel_left]
        exact found)
      rwa [← Nat.add_assoc] at command
  · rintro ⟨left, right⟩ k entry found
    rcases Nat.lt_or_ge k log.length with inLeft | inRight
    · rw [List.getElem?_append_left inLeft] at found
      exact left k entry found
    · rw [List.getElem?_append_right inRight] at found
      have command := right (k - log.length) entry found
      rwa [show base + log.length + (k - log.length) + 1 = base + k + 1 by omega] at command

theorem take (respects : Respects command base log) (n : Nat) :
    Respects command base (log.take n) := by
  rw [← List.take_append_drop n log] at respects
  exact (append_iff.mp respects).1

theorem drop (respects : Respects command base log) (n : Nat) :
    Respects command (base + n) (log.drop n) := by
  intro k entry found
  rw [List.getElem?_drop] at found
  have command := respects (n + k) entry found
  rwa [← Nat.add_assoc] at command

end Respects

namespace Raft.Accepts

variable {r : Raft} {req : AppendEntriesRequest} {log : List LogEntry} {modified : Bool}
  {command : Nat → Nat → Bytes}

/-- Accepted entries keep the log one that respects log matching. -/
theorem respects (accepts : Accepts r req log modified)
    (held : Respects command r.logBase r.log)
    (sent : Respects command req.prevLogIndex req.entries) :
    Respects command r.logBase log := by
  have result := accepts.result
  simp only at result
  split at result
  · cases result
    exact held
  next entriesLeft =>
    cases result
    rcases accepts.reach with none | ⟨inside, reach⟩
    · simp [none] at entriesLeft
    · have kept := agreeing_le_left (r.log.drop (req.prevLogIndex - r.logBase)) req.entries
      rw [List.length_drop] at kept
      refine Respects.append_iff.mpr ⟨held.take _, ?_⟩
      rw [List.length_take, Nat.min_eq_left (by omega)]
      have tail := sent.drop (agreeing (r.log.drop (req.prevLogIndex - r.logBase))
        req.entries)
      convert tail using 1
      omega

/-- The loop leaves at each index of the request an entry of the term sent. -/
theorem same_term (accepts : Accepts r req log modified) {k : Nat} {sent : LogEntry}
    (found : req.entries[k]? = some sent) :
    r.logBase ≤ req.prevLogIndex ∧
      ∃ held, log[req.prevLogIndex - r.logBase + k]? = some held ∧ held.term = sent.term := by
  have bound := (List.getElem?_eq_some_iff.mp found).1
  obtain ⟨inside, reach⟩ := accepts.reach.resolve_left
    (List.ne_nil_of_length_pos (Nat.zero_lt_of_lt bound))
  refine ⟨inside, ?_⟩
  have result := accepts.result
  have offsetLe : req.prevLogIndex - r.logBase ≤ r.log.length := by omega
  generalize req.prevLogIndex - r.logBase = offset at *
  simp only at result
  have keptLe := agreeing_le_left (r.log.drop offset) req.entries
  rw [List.length_drop] at keptLe
  have length : (r.log.take (offset + agreeing (r.log.drop offset) req.entries)).length =
      offset + agreeing (r.log.drop offset) req.entries := by
    rw [List.length_take]
    omega
  -- below the count the held entry stays, from the count on the sent one is stored
  have agreed (below : k < agreeing (r.log.drop offset) req.entries) :
      ∃ held, r.log[offset + k]? = some held ∧ held.term = sent.term := by
    obtain ⟨held, sent', inLog, inEntries, sameTerm⟩ := same_term_of_lt_agreeing below
    rw [found] at inEntries
    cases inEntries
    rw [List.getElem?_drop] at inLog
    exact ⟨held, inLog, sameTerm⟩
  split at result
  next all =>
    cases result
    exact agreed (all ▸ bound)
  next =>
    cases result
    rcases Nat.lt_or_ge k (agreeing (r.log.drop offset) req.entries) with below | above
    · obtain ⟨held, inLog, sameTerm⟩ := agreed below
      refine ⟨held, ?_, sameTerm⟩
      rw [List.getElem?_append_left (by omega), List.getElem?_take_of_lt (by omega)]
      exact inLog
    · refine ⟨sent, ?_, rfl⟩
      rw [List.getElem?_append_right (by omega), length, List.getElem?_drop]
      convert found using 2
      omega

/-- With log matching it is the entry sent. -/
theorem holds (accepts : Accepts r req log modified)
    (held : Respects command r.logBase r.log)
    (sent : Respects command req.prevLogIndex req.entries) {k : Nat} {entry : LogEntry}
    (found : req.entries[k]? = some entry) :
    r.logBase ≤ req.prevLogIndex ∧
      ∃ kept, log[req.prevLogIndex - r.logBase + k]? = some kept ∧
        kept.term = entry.term ∧ kept.command = entry.command := by
  obtain ⟨inside, kept, inLog, sameTerm⟩ := accepts.same_term found
  refine ⟨inside, kept, inLog, sameTerm, ?_⟩
  rw [accepts.respects held sent _ _ inLog, sent k entry found, sameTerm]
  congr 1
  omega

end Raft.Accepts

namespace Node

open Consensus Cluster

variable {command : Nat → Nat → Bytes} {n : Node}

/-- The node serves one more `AppendEntries` call, whose entries respect log
matching. -/
def Appends (command : Nat → Nat → Bytes) (_ : Node) : NodeAction → Prop
  | .appendEntries req _ => Respects command req.prevLogIndex req.entries
  | _ => False

/-- A request whose entries are all in memory finds them stored: at each of its indices
the stored log has what the log has. -/
def FindsStored (n : Node) (req : AppendEntriesRequest) : Prop :=
  Repeats n.raft req → ∀ k < req.entries.length,
    n.raft.persister.log[req.prevLogIndex - n.raft.logBase + k]? =
      n.raft.log[req.prevLogIndex - n.raft.logBase + k]?

instance (n : Node) (req : AppendEntriesRequest) : Decidable (n.FindsStored req) :=
  inferInstanceAs (Decidable (_ → _))

/-- A call leaves a log that respects log matching, above the same base. -/
theorem respects_of_call {r r' : Raft} {req : AppendEntriesRequest} {disk : Disk}
    {reply : Except String AppendEntriesResponse}
    (called : r.appendEntries req disk = some (r', reply))
    (held : Respects command r.logBase r.log)
    (sent : Respects command req.prevLogIndex req.entries) :
    Respects command r'.logBase r'.log := by
  rcases Raft.appendEntries_cases called with
    ⟨yields, -⟩ | ⟨heard, log, modified, yields, -, accepts, outcome⟩
  · rw [yields.log, yields.logBase]
    exact held
  · have kept := accepts.respects held sent
    rw [← yields.logBase] at kept
    rcases outcome with ⟨-, rfl, -⟩ | ⟨commitCh, rfl, -⟩
    · exact kept
    · exact kept

/-- One call keeps the log respecting log matching. -/
theorem respects_step {n' : Node} {a : NodeAction}
    (held : Respects command n.raft.logBase n.raft.log) (appends : n.Appends command a)
    (stepped : n.step a = some n') : Respects command n'.raft.logBase n'.raft.log := by
  cases a with
  | appendEntries req disk =>
      simp only [step] at stepped
      split at stepped
      · cases stepped
      next called =>
        cases stepped
        exact respects_of_call called held appends
  | _ => exact appends.elim

/-- Acknowledged entries are stored: in every history of `AppendEntries` calls with
a disk that may fail, after a successful call that does not repeat entries which are in
memory only, the stored log holds the entries of the request at their indices. -/
theorem acknowledged_entries_stored {cfg : Config} {p : Persister}
    (loaded : Respects command (init cfg p).raft.logBase (init cfg p).raft.log)
    (run : Run step (Appends command) (init cfg p) n)
    {req : AppendEntriesRequest} {disk : Disk} {r' : Raft} {resp : AppendEntriesResponse}
    (appends : n.Appends command (.appendEntries req disk))
    (findsStored : n.FindsStored req)
    (called : n.raft.appendEntries req disk = some (r', .ok resp))
    (success : resp.success = true) {k : Nat} {entry : LogEntry}
    (found : req.entries[k]? = some entry) :
    r'.logBase ≤ req.prevLogIndex ∧
      ∃ stored, r'.persister.log[req.prevLogIndex - r'.logBase + k]? = some stored ∧
        stored.term = entry.term ∧ stored.command = entry.command := by
  have held : Respects command n.raft.logBase n.raft.log :=
    run.invariant loaded fun held appends stepped => respects_step held appends stepped
  have confirmed := stored_or_repeats called success
  rcases Raft.appendEntries_cases called with
    ⟨-, term, refused⟩ | ⟨heard, log, modified, yields, -, accepts, outcome⟩
  · cases refused
    cases success
  rcases outcome with ⟨-, -, err, failed⟩ | ⟨commitCh, rfl, -⟩
  · cases failed
  obtain ⟨inside, kept, inLog, same⟩ := accepts.holds held appends found
  rw [← yields.logBase] at inside inLog
  refine ⟨inside, kept, ?_, same⟩
  rcases confirmed with stored | ⟨repeats, unchanged, persister⟩
  · rw [stored]
    exact inLog
  · have stored := findsStored repeats k (List.getElem?_eq_some_iff.mp found).1
    rw [← yields.logBase] at stored
    rw [persister, stored, ← unchanged]
    exact inLog

/-- The first entry of a leader, and its first two. -/
def firstEntry : AppendEntriesRequest := ⟨1, 0, 0, 0, [⟨1, 1, [1]⟩], 0⟩

def firstTwo : AppendEntriesRequest := ⟨1, 0, 0, 0, [⟨1, 1, [1]⟩, ⟨2, 1, [2]⟩], 0⟩

/-- A follower whose disk has failed on the first entry. -/
def afterFailure : Node :=
  ((init ⟨1, [0, 2], 0⟩ {}).step (.appendEntries firstEntry ⟨some "disk full", none⟩)).getD
    (init ⟨1, [0, 2], 0⟩ {})

theorem afterFailure_step :
    (init ⟨1, [0, 2], 0⟩ {}).step (.appendEntries firstEntry ⟨some "disk full", none⟩) =
      some afterFailure := by
  decide +kernel

/-- When the leader sends both entries next, the first one is stored as well. -/
theorem acknowledged_entries_stored_next :
    ∃ r' resp, afterFailure.raft.appendEntries firstTwo {} = some (r', .ok resp) ∧
      resp.success = true ∧
      ∃ stored, r'.persister.log[0 - r'.logBase + 0]? = some stored ∧
        stored.term = 1 ∧ stored.command = [1] := by
  obtain ⟨r', called⟩ : ∃ r', afterFailure.raft.appendEntries firstTwo {} =
      some (r', .ok ⟨1, true⟩) := ⟨_, rfl⟩
  have respects : Respects (fun index _ => [UInt8.ofNat index]) 0 firstTwo.entries := by
    rintro (_ | _ | k) entry found <;> simp [firstTwo] at found <;> subst found <;> rfl
  have run : Run step (Appends fun index _ => [UInt8.ofNat index])
      (init ⟨1, [0, 2], 0⟩ {}) afterFailure := by
    refine .tail (.refl _) ?_ afterFailure_step
    exact respects.take 1
  exact ⟨r', _, called, rfl,
    (acknowledged_entries_stored Respects.nil run respects (by decide +kernel) called rfl
      (k := 0) rfl).2⟩

/-- When it sends the first entry again, the call succeeds and nothing is
stored. -/
theorem repetition_not_stored :
    ∃ n, Run step (fun _ _ => True) (init ⟨1, [0, 2], 0⟩ {}) n ∧
      ∃ r', n.raft.appendEntries firstEntry {} = some (r', .ok ⟨1, true⟩) ∧
        r'.persister.log = [] :=
  ⟨afterFailure, .tail (.refl _) trivial afterFailure_step, _, rfl, rfl⟩

end Node

end DistribKV
