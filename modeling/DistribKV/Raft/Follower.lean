import DistribKV.Raft.Log

/-!
# What a follower does with requests

The handler of `AppendEntries` seen from outside: the log it leaves, the commit
index and the answer.  For a node that has not compacted its log these are given
by a reference that speaks of absolute indices only.

A leader sends overlapping parts of its log from heartbeats, retries and new
commands, and they may arrive in any order and more than once.  What a follower
has accepted of that log it keeps, and an accepted request has no further effect.
-/

namespace DistribKV

namespace Raft

variable {r : Raft} {req : AppendEntriesRequest} {disk : Disk}

/-! ## What the handler answers -/

/-- The answer to an accepted request, by whether the log had to be stored. -/
def appendReply (req : AppendEntriesRequest) (disk : Disk) (modified : Bool) :
    Except String AppendEntriesResponse :=
  match modified, disk.save with
  | true, some err => .error ("persist on append: " ++ err)
  | _, _ => .ok { term := req.term, success := true }

/-- The log a current request leaves and the answer to it; `none` is a run-time
panic. -/
theorem appendEntries_log_reply (disk : Disk) (current : r.currentTerm ≤ req.term) :
    (r.appendEntries req disk).map (fun result => (result.1.log, result.2)) =
      if r.prevLogOk req then
        (appendLoop r.logBase req.prevLogIndex 0 req.entries (r.log, false)).map
          fun result => (result.1, appendReply req disk result.2)
      else some (r.log, .ok { term := req.term, success := false }) := by
  have yields : Yields r ((r.adoptTerm req.term).hearFromLeader req.leaderId) :=
    (Yields.adoptTerm r req.term).trans (.hearFromLeader _ _)
  have term : ((r.adoptTerm req.term).hearFromLeader req.leaderId).currentTerm =
      req.term := by
    simp [current]
  rw [appendEntries, if_neg (Nat.not_lt.mpr current)]
  generalize (r.adoptTerm req.term).hearFromLeader req.leaderId = heard at *
  have check : heard.prevLogOk req = r.prevLogOk req := by
    simp only [prevLogOk, yields.log, yields.logBase]
  simp only [check, yields.log, yields.logBase]
  cases r.prevLogOk req with
  | false => simp [yields.log, term]
  | true =>
      cases appendLoop r.logBase req.prevLogIndex 0 req.entries (r.log, false) with
      | none => rfl
      | some result =>
          obtain ⟨log, modified⟩ := result
          cases modified with
          | false => simp [appendReply, term]
          | true => cases stored : disk.save <;> simp [persist, saved, stored, appendReply, term]

/-- A request that passes the consistency check starts at the beginning, or
inside the retained log, or right after it. -/
theorem reach_of_prevLogOk (consistent : r.prevLogOk req = true) :
    req.prevLogIndex = 0 ∨
      r.logBase ≤ req.prevLogIndex ∧ req.prevLogIndex ≤ r.logBase + r.log.length := by
  rcases Nat.eq_zero_or_pos req.prevLogIndex with zero | positive
  · exact .inl zero
  · obtain ⟨k, entry, position, found, -⟩ := entry_of_prevLogOk consistent positive
    have bound := (List.getElem?_eq_some_iff.mp found).1
    exact .inr (by omega)

end Raft

/-! ## The reference -/

namespace Reference

/-- The entry of a log at an absolute index. -/
def atIndex (log : List LogEntry) (index : Nat) : Option LogEntry :=
  log.find? fun entry => entry.index == index

/-- The entries of a log up to an absolute index. -/
def upTo (log : List LogEntry) (index : Nat) : List LogEntry :=
  log.filter fun entry => decide (entry.index ≤ index)

/-- The log has no entry of the given term at an absolute index. -/
def lacks (log : List LogEntry) (index term : Nat) : Bool :=
  (atIndex log index).all fun held => decide (held.term ≠ term)

/-- The reply flag, the log and the commit index after a request. -/
structure Outcome where
  success : Bool
  log : List LogEntry
  commitIndex : Nat
  deriving DecidableEq, Repr

/-- What `AppendEntries` is for: stale requests and requests that do not fit are
refused; otherwise the log is replaced from the first entry on that lies beyond it
or differs from it in term, and the commit index follows the leader's as far as
the request reaches. -/
def appendEntries (r : Raft) (req : AppendEntriesRequest) : Outcome :=
  if req.term < r.currentTerm ∨
      0 < req.prevLogIndex ∧ lacks r.log req.prevLogIndex req.prevLogTerm then
    { success := false, log := r.log, commitIndex := r.commitIndex }
  else
    { success := true
      log :=
        match req.entries.findIdx? fun entry => lacks r.log entry.index entry.term with
        | none => r.log
        | some j => upTo r.log (req.prevLogIndex + j) ++ req.entries.drop j
      commitIndex := max r.commitIndex
        (min req.leaderCommit (req.prevLogIndex + req.entries.length)) }

variable {base : Nat} {log entries : List LogEntry}

/-- Absolute indices of an aligned log are positions. -/
theorem atIndex_of_aligned (aligned : Aligned base log) (k : Nat) :
    atIndex log (base + k + 1) = log[k]? := by
  induction log generalizing base k with
  | nil => rfl
  | cons entry log ih =>
      obtain ⟨first, rest⟩ := Aligned.cons_iff.mp aligned
      cases k with
      | zero => simp [atIndex, first]
      | succ k =>
          have other : (entry.index == base + (k + 1) + 1) = false := by
            simp only [first, beq_eq_false_iff_ne, ne_eq]
            omega
          have found := ih rest k
          rw [show base + 1 + k + 1 = base + (k + 1) + 1 by omega] at found
          rw [List.getElem?_cons_succ, ← found, atIndex, List.find?_cons, other]
          rfl

theorem upTo_of_aligned (aligned : Aligned base log) (k : Nat) :
    upTo log (base + k) = log.take k := by
  induction log generalizing base k with
  | nil => simp [upTo]
  | cons entry log ih =>
      obtain ⟨first, rest⟩ := Aligned.cons_iff.mp aligned
      cases k with
      | zero =>
          rw [List.take_zero, upTo, List.filter_eq_nil_iff]
          intro held member
          obtain ⟨k, found⟩ := List.mem_iff_getElem?.mp member
          have index := aligned k held found
          simp only [decide_eq_true_eq]
          omega
      | succ k =>
          have kept := ih rest k
          rw [show base + 1 + k = base + (k + 1) by omega] at kept
          rw [upTo, List.filter_cons_of_pos (by simp only [decide_eq_true_eq]; omega),
            List.take_succ_cons]
          exact congrArg (entry :: ·) kept

/-- The first entry that the log lacks is where the terms stop agreeing. -/
theorem findIdx?_lacks (aligned : Aligned 0 log) {prevLogIndex : Nat}
    (sent : Aligned prevLogIndex entries) :
    entries.findIdx? (fun entry => lacks log entry.index entry.term) =
      if agreeing (log.drop prevLogIndex) entries = entries.length then none
      else some (agreeing (log.drop prevLogIndex) entries) := by
  induction entries generalizing prevLogIndex with
  | nil => simp
  | cons entry entries ih =>
      obtain ⟨first, rest⟩ := Aligned.cons_iff.mp sent
      have position := atIndex_of_aligned aligned prevLogIndex
      rw [Nat.zero_add, ← first] at position
      rw [List.findIdx?_cons, lacks, position]
      by_cases bound : prevLogIndex < log.length
      · rw [List.getElem?_eq_getElem bound, List.drop_eq_getElem_cons bound, agreeing,
          ih rest]
        by_cases same : log[prevLogIndex].term = entry.term
        · by_cases all : agreeing (log.drop (prevLogIndex + 1)) entries = entries.length
          · simp [same, all]
          · simp [same, all]
        · simp [same]
      · have beyond : log.length ≤ prevLogIndex := Nat.not_lt.mp bound
        rw [List.getElem?_eq_none beyond, List.drop_eq_nil_of_le beyond]
        simp [agreeing]

end Reference

namespace Raft

variable {r : Raft} {req : AppendEntriesRequest} {disk : Disk}

/-- Without compaction the consistency check reads the entry at the previous
index. -/
theorem prevLogOk_of_uncompacted (uncompacted : r.logBase = 0) (aligned : Aligned 0 r.log)
    (req : AppendEntriesRequest) :
    r.prevLogOk req =
      !(decide (0 < req.prevLogIndex) &&
        Reference.lacks r.log req.prevLogIndex req.prevLogTerm) := by
  unfold prevLogOk
  rcases Nat.eq_zero_or_pos req.prevLogIndex with zero | positive
  · simp [zero]
  · obtain ⟨k, position⟩ : ∃ k, req.prevLogIndex = k + 1 :=
      ⟨req.prevLogIndex - 1, by omega⟩
    have offset : ((k + 1 : Nat) : Int) - (0 : Nat) - 1 = (k : Nat) := by omega
    have held := Reference.atIndex_of_aligned aligned k
    rw [Nat.zero_add] at held
    rw [uncompacted, position, offset, entryAt_natCast, if_pos (Nat.succ_pos k),
      Reference.lacks, held]
    cases r.log[k]? with
    | none => rfl
    | some entry => simp

/-- A stale or inconsistent request changes neither log nor commit index. -/
theorem appendEntries_refused (disk : Disk)
    (refused : req.term < r.currentTerm ∨ r.prevLogOk req = false) :
    ∃ r' term, r.appendEntries req disk = some (r', .ok { term, success := false }) ∧
      r.Yields r' := by
  rcases Nat.lt_or_ge req.term r.currentTerm with stale | current
  · exact ⟨r, _, by rw [appendEntries, if_pos stale], .refl r⟩
  · have inconsistent := refused.resolve_left (Nat.not_lt.mpr current)
    have seen := appendEntries_log_reply disk current
    rw [inconsistent] at seen
    obtain ⟨⟨r', reply⟩, called, same⟩ := Option.map_eq_some_iff.mp seen
    obtain ⟨-, rfl⟩ := Prod.mk.inj same
    refine ⟨r', req.term, called, ?_⟩
    rcases appendEntries_cases called with ⟨yields, -⟩ | ⟨_, _, _, -, -, accepts, -⟩
    · exact yields
    · rw [accepts.consistent] at inconsistent
      cases inconsistent

/-- A current request whose entries fit is answered by what the loop leaves, and
on a working disk the new log is stored if it changed. -/
theorem Accepts.appendEntries {log : List LogEntry} {modified : Bool}
    (accepts : Accepts r req log modified) (disk : Disk) :
    ∃ r', r.appendEntries req disk = some (r', appendReply req disk modified) ∧
      r'.log = log ∧ r'.logBase = r.logBase ∧
      (disk.save = none ∨ modified = false →
        r'.commitIndex = max r.commitIndex
          (min req.leaderCommit (req.prevLogIndex + req.entries.length))) ∧
      (disk.save = none → modified = true → r'.persister.log = log) ∧
      r.commitIndex ≤ r'.commitIndex := by
  have seen := appendEntries_log_reply disk accepts.current
  rw [accepts.consistent, if_pos rfl, accepts.loop] at seen
  obtain ⟨⟨r', reply⟩, called, same⟩ := Option.map_eq_some_iff.mp seen
  obtain ⟨left, rfl⟩ := Prod.mk.inj same
  refine ⟨r', called, left, ?_⟩
  rcases appendEntries_cases called with
    ⟨-, term, refused⟩ | ⟨heard, log', modified', yields, -, accepts', outcome⟩
  · unfold appendReply at refused
    split at refused <;> cases refused
  · obtain ⟨rfl, rfl⟩ := Prod.mk.inj (Option.some.inj (accepts'.loop.symm.trans accepts.loop))
    rcases outcome with ⟨rfl, rfl, err, failed⟩ | ⟨commitCh, rfl, -⟩
    · have full : disk.save ≠ none := by
        rintro stored
        simp [appendReply, stored] at failed
      refine ⟨yields.logBase, ?_, fun stored => absurd stored full,
        yields.commitIndex.ge⟩
      rintro (stored | unmodified)
      · exact absurd stored full
      · cases unmodified
    · refine ⟨yields.logBase, fun _ => by rw [yields.commitIndex], ?_, ?_⟩
      · rintro - rfl
        rfl
      · rw [← yields.commitIndex]
        exact Nat.le_max_left _ _

/-- Without compaction no access is out of range. -/
theorem exists_accepts (uncompacted : r.logBase = 0) (current : r.currentTerm ≤ req.term)
    (consistent : r.prevLogOk req = true) :
    ∃ log modified, Accepts r req log modified := by
  have reach : req.prevLogIndex + 0 ≤ r.logBase + r.log.length := by
    rcases reach_of_prevLogOk consistent with start | ⟨-, upper⟩
    · omega
    · exact upper
  exact ⟨_, _, current, consistent, appendLoop_eq (by omega) reach⟩

/-- `AppendEntries` is its reference: for every node that has not compacted its
log, every request with consecutive indices and a disk that works, the handler
answers with the reference's flag and leaves the reference's log and commit index,
and a log that changed is stored. -/
theorem appendEntries_eq_reference (uncompacted : r.logBase = 0) (aligned : Aligned 0 r.log)
    (stores : disk.save = none) (sent : Aligned req.prevLogIndex req.entries) :
    ∃ r' resp, r.appendEntries req disk = some (r', .ok resp) ∧
      Reference.appendEntries r req = ⟨resp.success, r'.log, r'.commitIndex⟩ ∧
      (r'.log ≠ r.log → r'.persister.log = r'.log) := by
  have check := prevLogOk_of_uncompacted uncompacted aligned req
  by_cases refused : req.term < r.currentTerm ∨
      0 < req.prevLogIndex ∧ Reference.lacks r.log req.prevLogIndex req.prevLogTerm
  · obtain ⟨r', term, called, yields⟩ := appendEntries_refused disk
      (refused.imp_right fun ⟨positive, lacks⟩ => by rw [check]; simp [positive, lacks])
    refine ⟨r', _, called, ?_, fun changed => absurd yields.log changed⟩
    rw [Reference.appendEntries, if_pos refused, yields.log, yields.commitIndex]
  · obtain ⟨current, fits⟩ := not_or.mp refused
    have consistent : r.prevLogOk req = true := by
      rw [check, Bool.not_eq_true', Bool.and_eq_false_imp]
      simpa using fits
    obtain ⟨log, modified, accepts⟩ :=
      exists_accepts uncompacted (Nat.not_lt.mp current) consistent
    obtain ⟨r', called, left, -, commit, stored, -⟩ := accepts.appendEntries disk
    have answer : appendReply req disk modified = .ok ⟨req.term, true⟩ := by
      cases modified <;> simp [appendReply, stores]
    have result := accepts.result
    simp only [uncompacted, Nat.sub_zero] at result
    have changes := Reference.findIdx?_lacks aligned sent
    refine ⟨r', _, answer ▸ called, ?_, ?_⟩
    · rw [Reference.appendEntries, if_neg refused, commit (.inl stores), left, changes]
      split at result
      next all =>
        cases result
        simp [all]
      next entriesLeft =>
        cases result
        have part := Reference.upTo_of_aligned aligned
          (req.prevLogIndex + agreeing (r.log.drop req.prevLogIndex) req.entries)
        rw [Nat.zero_add] at part
        simp [entriesLeft, part]
    · intro changed
      rw [left] at changed ⊢
      refine stored stores ?_
      split at result
      · cases result
        exact absurd rfl changed
      · cases result
        rfl

/-- A follower with two entries of term `1`. -/
def twoEntries : Raft :=
  { serverId := 1, peers := [], currentTerm := 1, log := [⟨1, 1, [1]⟩, ⟨2, 1, [2]⟩] }

/-- A request of term `2` that replaces the second entry and adds a third one. -/
def replaceSecond : AppendEntriesRequest := ⟨2, 0, 1, 1, [⟨2, 2, [4]⟩, ⟨3, 2, [5]⟩], 2⟩

theorem appendEntries_eq_reference_conflict :
    ∃ r' resp, twoEntries.appendEntries replaceSecond {} = some (r', .ok resp) ∧
      (⟨true, [⟨1, 1, [1]⟩, ⟨2, 2, [4]⟩, ⟨3, 2, [5]⟩], 2⟩ : Reference.Outcome) =
        ⟨resp.success, r'.log, r'.commitIndex⟩ ∧
      r'.persister.log = r'.log := by
  obtain ⟨r', resp, called, outcome, stored⟩ :=
    appendEntries_eq_reference (r := twoEntries) rfl (by decide)
      (show ({} : Disk).save = none from rfl)
      (show Aligned replaceSecond.prevLogIndex replaceSecond.entries by decide)
  have expected : Reference.appendEntries twoEntries replaceSecond =
      ⟨true, [⟨1, 1, [1]⟩, ⟨2, 2, [4]⟩, ⟨3, 2, [5]⟩], 2⟩ := by decide
  rw [expected] at outcome
  have log : [⟨1, 1, [1]⟩, ⟨2, 2, [4]⟩, ⟨3, 2, [5]⟩] = r'.log :=
    congrArg Reference.Outcome.log outcome
  exact ⟨r', resp, called, outcome, stored (by rw [← log]; decide)⟩

/-! ## Redelivery -/

/-- Deliver requests one after the other; `none` is a run-time panic. -/
def deliverAll (r : Raft) : List (AppendEntriesRequest × Disk) → Option Raft
  | [] => some r
  | (req, disk) :: rest =>
      match r.appendEntries req disk with
      | none => none
      | some (r', _) => r'.deliverAll rest

end Raft

/-- The last index a request reaches. -/
def AppendEntriesRequest.lastNewIndex (req : AppendEntriesRequest) : Nat :=
  req.prevLogIndex + req.entries.length

/-- A part of a leader's log sent in the given term. -/
structure CutFrom (book : List LogEntry) (term : Nat) (req : AppendEntriesRequest) : Prop where
  slice : Slice book req
  term : req.term = term

/-- A node without compaction whose log satisfies log matching with a leader's. -/
structure Follows (book : List LogEntry) (r : Raft) : Prop where
  uncompacted : r.logBase = 0
  agrees : Agrees r.log book

/-- A part of a book agrees with it. -/
theorem Agrees.take (book : List LogEntry) (n : Nat) : Agrees (book.take n) book := by
  intro k held sent found _ _
  have bound := (List.getElem?_eq_some_iff.mp found).1
  rw [List.length_take] at bound
  rw [List.take_take, Nat.min_eq_left (by omega)]

namespace Follows

open Consensus Raft

variable {book : List LogEntry} {r : Raft} {req : AppendEntriesRequest}

/-- What an accepted part of the leader's log leaves. -/
theorem accepts (follows : Follows book r) (slice : Slice book req) {log : List LogEntry}
    {modified : Bool} (accepts : Accepts r req log modified) :
    log = merge r.log (book.take req.lastNewIndex) ∧
      modified = !decide (book.take req.lastNewIndex <+: r.log) :=
  accepts.merge (show ([] : List LogEntry).length = r.logBase from follows.uncompacted.symm)
    slice follows.agrees

/-- One request: it does not panic, what the node shares with the leader's log
stays, and the commit index does not go down. -/
theorem deliver (follows : Follows book r) (slice : Slice book req) (disk : Disk) :
    ∃ r' reply, r.appendEntries req disk = some (r', reply) ∧ Follows book r' ∧
      r.commitIndex ≤ r'.commitIndex ∧
      ∀ n, book.take n <+: r.log → book.take n <+: r'.log := by
  by_cases refused : req.term < r.currentTerm ∨ r.prevLogOk req = false
  · obtain ⟨r', term, called, yields⟩ := appendEntries_refused disk refused
    refine ⟨r', _, called, ⟨?_, ?_⟩, yields.commitIndex.ge, ?_⟩
    · rw [yields.logBase]
      exact follows.uncompacted
    · rw [yields.log]
      exact follows.agrees
    · rw [yields.log]
      exact fun _ => id
  · obtain ⟨current, consistent⟩ := not_or.mp refused
    obtain ⟨log, modified, accepts⟩ := exists_accepts follows.uncompacted
      (Nat.not_lt.mp current) (Bool.of_not_eq_false consistent)
    obtain ⟨merged, -⟩ := follows.accepts slice accepts
    obtain ⟨r', called, left, base, -, -, commit⟩ := accepts.appendEntries disk
    refine ⟨r', _, called, ⟨base.trans follows.uncompacted, ?_⟩, commit, ?_⟩
    · rw [left, merged]
      rcases merge_eq_or r.log (book.take req.lastNewIndex) with kept | replaced
      · rw [kept]
        exact follows.agrees
      · rw [replaced]
        exact .take book _
    · intro n shared
      rw [left, merged]
      exact prefix_merge shared (List.take_prefix _ _) (List.take_prefix _ _)

/-- The same for a sequence of requests. -/
theorem deliverAll (follows : Follows book r)
    {deliveries : List (AppendEntriesRequest × Disk)}
    (slices : ∀ delivery ∈ deliveries, Slice book delivery.1) :
    ∃ r', r.deliverAll deliveries = some r' ∧ Follows book r' ∧
      r.commitIndex ≤ r'.commitIndex ∧
      ∀ n, book.take n <+: r.log → book.take n <+: r'.log := by
  induction deliveries generalizing r with
  | nil => exact ⟨r, rfl, follows, Nat.le_refl _, fun _ => id⟩
  | cons delivery rest ih =>
      obtain ⟨req, disk⟩ := delivery
      obtain ⟨r', reply, called, follows, commit, keeps⟩ :=
        follows.deliver (slices _ List.mem_cons_self) disk
      obtain ⟨r'', delivered, follows, commit', keeps'⟩ :=
        ih follows fun delivery member => slices delivery (List.mem_cons_of_mem _ member)
      refine ⟨r'', ?_, follows, commit.trans commit', fun n shared => keeps' n (keeps n shared)⟩
      rw [Raft.deliverAll, called]
      exact delivered

/-- A request that succeeds puts what it carries into the log, and commits as much of
it as the leader has committed. -/
theorem of_success (follows : Follows book r) (slice : Slice book req) {disk : Disk}
    {r' : Raft} {term : Nat}
    (accepted : r.appendEntries req disk = some (r', .ok ⟨term, true⟩)) :
    r'.log = merge r.log (book.take req.lastNewIndex) ∧
      min req.leaderCommit req.lastNewIndex ≤ r'.commitIndex := by
  rcases appendEntries_cases accepted with
    ⟨-, _, refused⟩ | ⟨heard, log, modified, yields, -, accepts, outcome⟩
  · cases refused
  · rcases outcome with ⟨-, -, err, failed⟩ | ⟨commitCh, rfl, -⟩
    · cases failed
    · exact ⟨(follows.accepts slice accepts).1, Nat.le_max_right _ _⟩

/-- A request that brings nothing new changes neither log nor commit index. -/
theorem redeliver (follows : Follows book r) (slice : Slice book req)
    (held : book.take req.lastNewIndex <+: r.log)
    (committed : min req.leaderCommit req.lastNewIndex ≤ r.commitIndex) (disk : Disk) :
    ∃ r' reply, r.appendEntries req disk = some (r', reply) ∧ r'.log = r.log ∧
      r'.commitIndex = r.commitIndex := by
  by_cases refused : req.term < r.currentTerm ∨ r.prevLogOk req = false
  · obtain ⟨r', term, called, yields⟩ := appendEntries_refused disk refused
    exact ⟨r', _, called, yields.log, yields.commitIndex⟩
  · obtain ⟨current, consistent⟩ := not_or.mp refused
    obtain ⟨log, modified, accepts⟩ := exists_accepts follows.uncompacted
      (Nat.not_lt.mp current) (Bool.of_not_eq_false consistent)
    obtain ⟨merged, unmodified⟩ := follows.accepts slice accepts
    rw [merge, if_pos held] at merged
    obtain ⟨r', called, left, -, commit, -⟩ := accepts.appendEntries disk
    refine ⟨r', _, called, left.trans merged, ?_⟩
    rw [commit (.inr (by simp [unmodified, held]))]
    exact Nat.max_eq_left committed

end Follows

namespace Raft

/-- Requests of one leader never undo each other: parts of its log are delivered in
any order and any number of times, on a disk that may fail, to a node that has not
compacted its log and satisfies log matching with the leader.  No delivery panics,
the commit index never goes down, and once a request has been accepted the node
agrees with the leader on everything the request reached, and delivering it again
changes neither log nor commit index. -/
theorem accepted_entries_stay {book : List LogEntry} {term : Nat} {r : Raft}
    (uncompacted : r.logBase = 0) (agrees : Agrees r.log book)
    {before after : List (AppendEntriesRequest × Disk)} {req : AppendEntriesRequest}
    {disk : Disk}
    (cut : ∀ delivery ∈ before ++ (req, disk) :: after, CutFrom book term delivery.1) :
    ∃ s, r.deliverAll before = some s ∧ r.commitIndex ≤ s.commitIndex ∧
      ∃ s' reply, s.appendEntries req disk = some (s', reply) ∧
        s.commitIndex ≤ s'.commitIndex ∧
        ∃ t, s'.deliverAll after = some t ∧ s'.commitIndex ≤ t.commitIndex ∧
          ∀ replyTerm, reply = .ok ⟨replyTerm, true⟩ →
            t.log.take req.lastNewIndex = book.take req.lastNewIndex ∧
            ∀ again, ∃ t' reply', t.appendEntries req again = some (t', reply') ∧
              t'.log = t.log ∧ t'.commitIndex = t.commitIndex := by
  have slices := fun delivery member => (cut delivery member).slice
  have slice : Slice book req := slices (req, disk) (by simp)
  have start : Follows book r := ⟨uncompacted, agrees⟩
  obtain ⟨s, delivered, follows, commit, -⟩ := start.deliverAll
    fun delivery (member : delivery ∈ before) => slices delivery (List.mem_append_left _ member)
  obtain ⟨s', reply, called, follows', commit', -⟩ := follows.deliver slice disk
  obtain ⟨t, delivered', follows'', commit'', keeps⟩ := follows'.deliverAll
    fun delivery (member : delivery ∈ after) =>
      slices delivery (List.mem_append_right _ (List.mem_cons_of_mem _ member))
  refine ⟨s, delivered, commit, s', reply, called, commit', t, delivered', commit'', ?_⟩
  rintro replyTerm rfl
  obtain ⟨merged, committed⟩ := follows.of_success slice called
  have held : book.take req.lastNewIndex <+: s'.log := merged ▸ Consensus.part_prefix_merge _ _
  have shared := keeps _ held
  refine ⟨?_, follows''.redeliver slice shared (committed.trans commit'')⟩
  have reaches : req.lastNewIndex ≤ book.length := slice.length_le
  have length : (book.take req.lastNewIndex).length = req.lastNewIndex := by
    rw [List.length_take, Nat.min_eq_left reaches]
  rw [List.prefix_iff_eq_take.mp shared, length]

/-- The log of the leader of term `2` that sends `replaceSecond`. -/
def leaderOfTwo : List LogEntry := [⟨1, 1, [1]⟩, ⟨2, 2, [4]⟩, ⟨3, 2, [5]⟩]

/-- A late heartbeat with the first entry only. -/
def firstEntry : AppendEntriesRequest := ⟨2, 0, 0, 0, [⟨1, 1, [1]⟩], 1⟩

/-- The late request leaves the entries that `replaceSecond` brought. -/
theorem accepted_entries_stay_late :
    ∃ t, twoEntries.deliverAll [(replaceSecond, {}), (firstEntry, {})] = some t ∧
      t.log.take 3 = leaderOfTwo := by
  have agrees : Agrees twoEntries.log leaderOfTwo := by
    intro k held sent found found' same
    match k with
    | 0 => rfl
    | 1 =>
        cases found
        cases found'
        cases same
    | _ + 2 => cases found
  have cut : ∀ delivery ∈ [] ++ (replaceSecond, ({} : Disk)) :: [(firstEntry, {})],
      CutFrom leaderOfTwo 2 delivery.1 := by
    intro delivery member
    simp only [List.nil_append, List.mem_cons, List.not_mem_nil, or_false] at member
    rcases member with rfl | rfl
    · refine ⟨⟨by decide, by decide, ?_⟩, rfl⟩
      rintro - entry ⟨⟩
      rfl
    · exact ⟨⟨by decide, by decide, by simp [firstEntry]⟩, rfl⟩
  obtain ⟨s, delivered, -, s', reply, called, -, t, delivered', -, agreesOn⟩ :=
    accepted_entries_stay rfl agrees cut
  cases delivered
  have answer : (twoEntries.appendEntries replaceSecond {}).map Prod.snd =
      some (.ok ⟨2, true⟩) := by decide
  rw [called, Option.map_some, Option.some.injEq] at answer
  refine ⟨t, ?_, (agreesOn 2 answer).1⟩
  rw [deliverAll, called]
  exact delivered'

end Raft

end DistribKV
