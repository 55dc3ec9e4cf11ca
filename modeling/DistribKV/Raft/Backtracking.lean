import DistribKV.Raft.Follower
import DistribKV.Consensus.Loops

/-!
# Backtracking

`sendAppendEntries` of `raft/replication.go` as a loop: it sends a leader's log from
`nextIndex` on, and when the follower rejects it, because its log differs at the previous
index, it steps back by one and tries again.  Here nothing is lost on the way and nobody
else sends to the follower.  The loop composes the construction of the request, the
handler of the follower and the handling of the reply.
-/

namespace DistribKV

open Consensus Raft

/-- A leader and one of its followers. -/
structure Link where
  leader : Raft
  follower : Raft
  deriving DecidableEq, Repr

namespace Link

/-- One round of the loop, on a working disk.  It is repeated, or ends with the flag of
the reply; `none` when nothing is sent or the handler panics. -/
def round (peerId : Int) (term commitIdx : Nat) (l : Link) : Option (Link ⊕ Link × Bool) :=
  match l.leader.sendAppendEntries peerId term commitIdx with
  | .request req =>
      match l.follower.appendEntries req {} with
      | some (follower, .ok resp) =>
          let (leader, retry) := l.leader.handleAppendEntriesResponse peerId req resp
          some (if retry then .inl ⟨leader, follower⟩ else .inr (⟨leader, follower⟩, resp.success))
      | _ => none
  | _ => none

/-- A call of `sendAppendEntries` with its retries. -/
def catchUp (peerId : Int) (term commitIdx fuel : Nat) (l : Link) :
    Option (Nat × Link × Bool) :=
  loop (round peerId term commitIdx) fuel l

end Link

/-! ## The leader -/

/-- What a rejection does to a peer. -/
def Peer.stepBack (p : Peer) : Peer :=
  if p.nextIndex > 1 then { p with nextIndex := p.nextIndex - 1 } else p

/-- What a success does to a peer that was sent everything up to `newMatch`. -/
def Peer.advance (newMatch : Nat) (p : Peer) : Peer :=
  let matchIndex := if newMatch > p.matchIndex then newMatch else p.matchIndex
  { p with matchIndex, nextIndex := matchIndex + 1 }

theorem Peer.advance_of_le {p : Peer} {newMatch : Nat} (le : p.matchIndex ≤ newMatch) :
    p.advance newMatch = { p with matchIndex := newMatch, nextIndex := newMatch + 1 } := by
  have greatest : (if newMatch > p.matchIndex then newMatch else p.matchIndex) = newMatch := by
    split <;> omega
  simp only [advance, greatest]

namespace Raft

variable {r : Raft}

/-- A leader without compaction sends everything from the next index on. -/
theorem appendEntriesRequest_of_uncompacted (uncompacted : r.logBase = 0) {nextIdx : Nat}
    (positive : 0 < nextIdx) (within : nextIdx ≤ r.log.length + 1) (term commitIdx : Nat) :
    (r.appendEntriesRequest nextIdx term commitIdx).prevLogIndex = nextIdx - 1 ∧
      (r.appendEntriesRequest nextIdx term commitIdx).lastNewIndex = r.log.length := by
  have collected : collectEntries r.log r.logBase
      (List.range' nextIdx (r.log.length + 1 - nextIdx)) = r.log.drop (nextIdx - 1) := by
    rw [collectEntries_eq r.log (by omega), uncompacted, Nat.sub_zero, List.take_of_length_le]
    rw [List.length_drop]
    omega
  have sum : nextIdx - 1 + (r.log.drop (nextIdx - 1)).length = r.log.length := by
    rw [List.length_drop]
    omega
  unfold AppendEntriesRequest.lastNewIndex appendEntriesRequest
  by_cases first : nextIdx - 1 > 0
  · obtain ⟨k, rfl⟩ : ∃ k, nextIdx = k + 2 := ⟨nextIdx - 2, by omega⟩
    have offset : ((k + 2 - 1 : Nat) : Int) - r.logBase - 1 = (k : Nat) := by omega
    have inLog : k < r.log.length := by omega
    simp only [offset, entryAt_natCast, List.getElem?_eq_getElem inLog, first, if_true, collected,
      sum, and_self]
  · simp only [first, if_false, collected, sum, and_self]

/-- The peer that is updated. -/
theorem peer?_updatePeer {peerId : Int} {peer : Peer} {f : Peer → Peer}
    (keeps : ∀ p, (f p).id = p.id) (known : r.peer? peerId = some peer) :
    (r.updatePeer peerId f).peer? peerId = some (f peer) := by
  have found : ∀ p : Peer, (if p.id = peerId then f p else p).id = p.id := by
    intro p
    split
    · exact keeps p
    · rfl
  have here : peer.id = peerId := by
    have matched := List.find?_some known
    simpa using matched
  unfold peer? updatePeer at *
  simp only [List.find?_map, Function.comp_def, found, known, Option.map_some, here, if_true]

end Raft

/-! ## The follower -/

/-- A follower that is not ahead answers in the term of the request.  It takes the whole
part of the log or refuses it, and what starts at the first index is never refused. -/
theorem Follows.answers {book : List LogEntry} {r : Raft} {req : AppendEntriesRequest}
    (follows : Follows book r) (slice : Slice book req) (current : r.currentTerm ≤ req.term) :
    ∃ r' success, r.appendEntries req {} = some (r', .ok ⟨req.term, success⟩) ∧
      if success then r'.log = merge r.log (book.take req.lastNewIndex)
      else 0 < req.prevLogIndex ∧ r'.log = r.log ∧ Follows book r' ∧
        r'.currentTerm ≤ req.term := by
  cases consistent : r.prevLogOk req with
  | true =>
      obtain ⟨log, modified, accepts⟩ := exists_accepts follows.uncompacted current consistent
      obtain ⟨r', called, -⟩ := accepts.appendEntries {}
      have answer : appendReply req {} modified = .ok ⟨req.term, true⟩ := by
        cases modified <;> rfl
      rw [answer] at called
      exact ⟨r', true, called, (follows.of_success slice called).1⟩
  | false =>
      have later : 0 < req.prevLogIndex := by
        refine Nat.pos_of_ne_zero fun start => ?_
        simp [prevLogOk, start] at consistent
      obtain ⟨r', term, called, yields⟩ := appendEntries_refused {} (.inr consistent)
      have follows' : Follows book r' := by
        constructor
        · rw [yields.logBase]
          exact follows.uncompacted
        · rw [yields.log]
          exact follows.agrees
      cases appendEntries_path called with
      | stale lower => exact absurd current (Nat.not_le.mpr lower)
      | refused _ hears =>
          exact ⟨r', false, called, later, yields.log, follows', (hears_leader current hears).2.le⟩

/-! ## The loop -/

/-- A leader of a term with a log `book`, and a follower that is not ahead of it and
satisfies log matching with it.  The leader knows the follower as `peer`. -/
structure Link.Lagging (book : List LogEntry) (term : Nat) (peerId : Int) (peer : Peer)
    (l : Link) : Prop where
  leads : l.leader.state = .leader
  running : l.leader.shutdown = false
  current : l.leader.currentTerm = term
  log : l.leader.log = book
  uncompacted : l.leader.logBase = 0
  known : l.leader.peer? peerId = some peer
  positive : 1 ≤ peer.nextIndex
  within : peer.nextIndex ≤ book.length + 1
  matched : peer.matchIndex ≤ book.length
  follows : Follows book l.follower
  behind : l.follower.currentTerm ≤ term

/-- The follower has the leader's log, and the leader knows. -/
structure Link.Synchronized (book : List LogEntry) (peerId : Int) (l : Link) : Prop where
  agrees : l.follower.log.take book.length = book
  recorded : ∃ peer, l.leader.peer? peerId = some peer ∧ peer.matchIndex = book.length ∧
    peer.nextIndex = book.length + 1

namespace Link.Lagging

variable {book : List LogEntry} {term : Nat} {peerId : Int} {peer : Peer} {l : Link}

/-- What the leader sends. -/
theorem sends (lagging : l.Lagging book term peerId peer) (commitIdx : Nat) :
    l.leader.sendAppendEntries peerId term commitIdx =
      .request (l.leader.appendEntriesRequest peer.nextIndex term commitIdx) := by
  have positive := lagging.positive
  simp only [sendAppendEntries, lagging.known, lagging.leads, lagging.running, lagging.current,
    lagging.uncompacted]
  rw [if_neg (by simp), if_neg (by omega), if_neg (by omega)]

theorem slice (lagging : l.Lagging book term peerId peer) (commitIdx : Nat) :
    Slice book (l.leader.appendEntriesRequest peer.nextIndex term commitIdx) := by
  have based : ([] : List LogEntry).length = l.leader.logBase := lagging.uncompacted.symm
  have sent := appendEntriesRequest_slice based lagging.positive term commitIdx
  rw [List.nil_append, lagging.log] at sent
  exact sent

/-- A rejection makes the leader step back and try again. -/
theorem handles (lagging : l.Lagging book term peerId peer) {req : AppendEntriesRequest}
    (sent : req.term = term) (success : Bool) :
    l.leader.handleAppendEntriesResponse peerId req ⟨term, success⟩ =
      if success then
        ((l.leader.updatePeer peerId (Peer.advance req.lastNewIndex)).updateCommitIndex, false)
      else (l.leader.updatePeer peerId Peer.stepBack, true) := by
  rw [handleAppendEntriesResponse, if_neg (by simp [lagging.leads, lagging.current, sent,
    lagging.running]), if_neg (by simp [lagging.current])]
  cases success with
  | true => rfl
  | false => rfl

/-- One round: the leader steps back, or both ends are synchronized. -/
theorem round (lagging : l.Lagging book term peerId peer) (commitIdx : Nat) :
    (∃ next peer', Link.round peerId term commitIdx l = some (.inl next) ∧
        next.Lagging book term peerId peer' ∧ peer'.nextIndex + 1 = peer.nextIndex) ∨
      ∃ last, Link.round peerId term commitIdx l = some (.inr (last, true)) ∧
        last.Synchronized book peerId := by
  have slice := lagging.slice commitIdx
  have sends := lagging.sends commitIdx
  obtain ⟨previous, reaches⟩ := appendEntriesRequest_of_uncompacted lagging.uncompacted
    lagging.positive (by rw [lagging.log]; exact lagging.within) term commitIdx
  have sent := l.leader.appendEntriesRequest_term peer.nextIndex term commitIdx
  generalize l.leader.appendEntriesRequest peer.nextIndex term commitIdx = req at *
  obtain ⟨follower, success, called, answer⟩ :=
    lagging.follows.answers slice (lagging.behind.trans_eq sent.symm)
  rw [sent] at called
  cases success with
  | false =>
      obtain ⟨later, -, follows, behind⟩ := answer
      have stepsBack : peer.nextIndex > 1 := by omega
      have again : Link.round peerId term commitIdx l =
          some (.inl ⟨l.leader.updatePeer peerId Peer.stepBack, follower⟩) := by
        simp only [Link.round, sends, called, lagging.handles sent, Bool.false_eq_true, if_false,
          if_true]
      have known := peer?_updatePeer (f := Peer.stepBack)
        (fun p => by unfold Peer.stepBack; split <;> rfl) lagging.known
      rw [Peer.stepBack, if_pos stepsBack] at known
      refine .inl ⟨_, { peer with nextIndex := peer.nextIndex - 1 }, again, ?_,
        Nat.sub_add_cancel lagging.positive⟩
      exact
        { leads := lagging.leads
          running := lagging.running
          current := lagging.current
          log := lagging.log
          uncompacted := lagging.uncompacted
          known
          positive := Nat.le_sub_one_of_lt stepsBack
          within := (Nat.sub_le _ _).trans lagging.within
          matched := lagging.matched
          follows
          behind := behind.trans_eq sent }
  | true =>
      have whole : req.lastNewIndex = book.length := by rw [reaches, lagging.log]
      rw [if_pos rfl, whole, List.take_length] at answer
      have held : book <+: follower.log := answer ▸ part_prefix_merge _ _
      have done : Link.round peerId term commitIdx l = some (.inr
          (⟨(l.leader.updatePeer peerId (Peer.advance book.length)).updateCommitIndex, follower⟩,
            true)) := by
        simp only [Link.round, sends, called, lagging.handles sent, whole, Bool.false_eq_true,
          if_false, if_true]
      have recorded := peer?_updatePeer (f := Peer.advance book.length) (fun p => rfl)
        lagging.known
      rw [Peer.advance_of_le lagging.matched, peer?, ← updateCommitIndex_peers] at recorded
      exact .inr ⟨_, done, (List.prefix_iff_eq_take.mp held).symm, _, recorded, rfl, rfl⟩

end Link.Lagging

/-- Backtracking ends and synchronizes: for every leader and every follower without
compaction that satisfy log matching, the follower not ahead in term, and whatever the
leader has recorded of the follower within its own log, the loop ends with a success
after at most as many rounds as the next index it starts from.  Then the follower has
the leader's log, and the leader has recorded that. -/
theorem Link.catchUp_synchronizes {leader follower : Raft} {peerId : Int} {peer : Peer}
    (commitIdx : Nat) (leads : leader.state = .leader) (running : leader.shutdown = false)
    (known : leader.peer? peerId = some peer) (positive : 1 ≤ peer.nextIndex)
    (within : peer.nextIndex ≤ leader.log.length + 1)
    (matched : peer.matchIndex ≤ leader.log.length)
    (leaderBase : leader.logBase = 0) (followerBase : follower.logBase = 0)
    (agrees : Agrees follower.log leader.log)
    (behind : follower.currentTerm ≤ leader.currentTerm) :
    ∃ rounds last, catchUp peerId leader.currentTerm commitIdx peer.nextIndex
        ⟨leader, follower⟩ = some (rounds, last, true) ∧
      rounds ≤ peer.nextIndex ∧ last.Synchronized leader.log peerId := by
  have lagging : Lagging leader.log leader.currentTerm peerId peer ⟨leader, follower⟩ :=
    ⟨leads, running, rfl, rfl, leaderBase, known, positive, within, matched,
      ⟨followerBase, agrees⟩, behind⟩
  obtain ⟨rounds, result, ended, few, success, synchronized⟩ :=
    exists_loop_of_measure (round peerId leader.currentTerm commitIdx)
      (fun l => ∃ peer, l.Lagging leader.log leader.currentTerm peerId peer)
      (fun l => ((l.leader.peer? peerId).map (·.nextIndex)).getD 0 - 1)
      (fun result => result.2 = true ∧ result.1.Synchronized leader.log peerId)
      (by
        rintro l ⟨peer, lagging⟩
        rcases lagging.round commitIdx with
          ⟨next, peer', again, lagging', lower⟩ | ⟨last, done, synchronized⟩
        · refine .inl ⟨next, again, ⟨peer', lagging'⟩, ?_⟩
          have positive := lagging'.positive
          rw [lagging.known, lagging'.known]
          simp only [Option.map_some, Option.getD_some]
          omega
        · exact .inr ⟨_, done, rfl, synchronized⟩)
      peer.nextIndex ⟨peer, lagging⟩
      (by simp only [known, Option.map_some, Option.getD_some]; omega)
  obtain ⟨last, flag⟩ := result
  cases success
  refine ⟨rounds, last, ended, ?_, synchronized⟩
  simp only [known, Option.map_some, Option.getD_some] at few
  omega

/-- A leader whose log goes on in terms `2` and `3`. -/
def aheadInTermThree : Raft :=
  { serverId := 0
    peers := [⟨1, 4, 0⟩, ⟨2, 4, 0⟩]
    currentTerm := 3
    state := .leader
    log := [⟨1, 1, [1]⟩, ⟨2, 2, [2]⟩, ⟨3, 3, [3]⟩] }

/-- A follower that went on in term `1`, with more entries. -/
def strayedInTermOne : Raft :=
  { serverId := 1
    peers := [⟨0, 1, 0⟩, ⟨2, 1, 0⟩]
    currentTerm := 2
    log := [⟨1, 1, [1]⟩, ⟨2, 1, [7]⟩, ⟨3, 1, [8]⟩, ⟨4, 1, [9]⟩] }

theorem Link.catchUp_synchronizes_strayed :
    ∃ rounds last, catchUp 1 3 0 4 ⟨aheadInTermThree, strayedInTermOne⟩ =
        some (rounds, last, true) ∧
      rounds ≤ 4 ∧ last.Synchronized aheadInTermThree.log 1 := by
  have agrees : Agrees strayedInTermOne.log aheadInTermThree.log := by
    intro k held sent atHeld atSent same
    match k with
    | 0 => rfl
    | 1 | 2 =>
        cases atHeld
        cases atSent
        exact absurd same (by decide)
    | _ + 3 => cases atSent
  have known : aheadInTermThree.peer? 1 = some ⟨1, 4, 0⟩ := rfl
  exact catchUp_synchronizes 0 rfl rfl known
    (by decide) (by decide) (by decide) rfl rfl agrees (by decide)

end DistribKV
