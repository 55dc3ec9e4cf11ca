import DistribKV.Node.Roles

/-!
# The election timer

A node that does not lead must campaign when it hears from no leader, so its
election timer has to run.  The timer starts `becomeCandidate` in a goroutine of its
own, which takes the lock twice: once to enter the election and once more to arm
the timer again.  `becomeLeader` stops the timer, and a leader that loses its role
needs it back.

Hearing from the new leader arms it, and so does giving a vote.  A refused
`RequestVote` of a higher term and a reply of a higher term do not.
-/

namespace DistribKV

open Consensus

/-- A node with the calls of `becomeCandidate` in progress: `fired` of them were
started by the timer and wait for the lock, `rearming` of them are between their two
critical sections, and so are `called` others that the timer did not start. -/
structure Timed where
  node : Node
  fired : Nat := 0
  rearming : Nat := 0
  called : Nat := 0
  deriving DecidableEq, Repr

/-- One atomic step of a node with its timer. -/
inductive TimedAction where
  | fire
  /-- First critical section of a call that the timer started. -/
  | campaign
  /-- Second critical section of such a call. -/
  | rearm
  /-- First critical section of another call. -/
  | call
  | rearmCall
  | node (a : NodeAction)
  deriving DecidableEq, Repr

namespace NodeAction

/-- The disk an action works on. -/
def disk : NodeAction → Disk
  | .becomeCandidate disk => disk
  | .requestVote _ disk => disk
  | .appendEntries _ disk => disk
  | .installSnapshot _ disk => disk
  | .replicate _ disk => disk
  | .snapshot _ _ disk => disk
  | _ => {}

/-- Steps that involve the timer, and restarts, are not actions of the node on its
own. -/
def timed : NodeAction → Bool
  | .becomeCandidate _ => true
  | .restart => true
  | _ => false

end NodeAction

namespace Timed

/-- A node constructed on what a persister holds, and started. -/
def init (cfg : Config) (persister : Persister) : Timed where
  node := .init cfg persister

/-- Whether a call of `becomeCandidate` goes on to arm the timer. -/
def campaigns (t : Timed) : Bool := (t.node.raft.becomeCandidate {}).2.isSome

/-- The node after its timer has been armed. -/
def armed (node : Node) : Node :=
  { node with raft := node.raft.resetElectionTimerLocked }

/-- The step function; `none` when the action is not enabled.  Storage calls of
`becomeCandidate` succeed. -/
def step (t : Timed) : TimedAction → Option Timed
  | .fire =>
      if t.node.raft.electionTimer = some true then
        some { t with
          node := { t.node with raft := { t.node.raft with electionTimer := some false } }
          fired := t.fired + 1 }
      else none
  | .campaign =>
      match t.fired, t.node.step (.becomeCandidate {}) with
      | fired + 1, some node =>
          some { t with
            node
            fired
            rearming := if t.campaigns then t.rearming + 1 else t.rearming }
      | _, _ => none
  | .rearm =>
      match t.rearming with
      | 0 => none
      | rearming + 1 => some { t with node := armed t.node, rearming }
  | .call =>
      match t.node.step (.becomeCandidate {}) with
      | none => none
      | some node =>
          some { t with node, called := if t.campaigns then t.called + 1 else t.called }
  | .rearmCall =>
      match t.called with
      | 0 => none
      | called + 1 => some { t with node := armed t.node, called }
  | .node a =>
      if a.timed then none
      else
        match t.node.step a with
        | none => none
        | some node => some { t with node }

/-- The timer runs, or a campaign that it started is in progress. -/
def Covered (t : Timed) : Prop :=
  t.node.raft.electionTimer = some true ∨ 0 < t.fired + t.rearming

instance (t : Timed) : Decidable t.Covered := inferInstanceAs (Decidable (_ ∨ _))

/-- A leader is about to lose its role in a way that does not arm the timer: to a
vote request of a higher term that it refuses, or to a reply of a higher term. -/
def deposed (r : Raft) : NodeAction → Bool
  | .requestVote req _ =>
      decide (r.state = .leader) && decide (r.currentTerm < req.term) && !r.logOk req
  | .appendEntriesReply _ req resp =>
      decide (r.state = .leader) && decide (r.currentTerm = req.term) &&
        decide (r.currentTerm < resp.term)
  | .installSnapshotReply _ req resp =>
      decide (r.state = .leader) && decide (r.currentTerm = req.term) &&
        decide (r.currentTerm < resp.term)
  | _ => false

/-- Storage works. -/
def Stores : TimedAction → Prop
  | .node a => a.disk = {}
  | _ => True

/-- A leader loses its role to a refused request or to a reply only while its timer
runs or a campaign is in progress. -/
def Rearms (t : Timed) : TimedAction → Prop
  | .node a => deposed t.node.raft a = true → t.Covered
  | _ => True

instance : DecidablePred Stores
  | .node a => inferInstanceAs (Decidable (a.disk = {}))
  | .fire | .campaign | .rearm | .call | .rearmCall => .isTrue trivial

instance (t : Timed) : DecidablePred t.Rearms
  | .node a => inferInstanceAs (Decidable (deposed t.node.raft a = true → t.Covered))
  | .fire | .campaign | .rearm | .call | .rearmCall => .isTrue trivial

/-- What holds of a node that will campaign when it has to. -/
structure Watched (t : Timed) : Prop where
  timer : t.node.raft.electionTimer.isSome
  running : t.node.raft.shutdown = false
  covered : t.node.raft.state ≠ .leader → t.Covered

namespace Watched

variable {t t' : Timed}

theorem initial (cfg : Config) (persister : Persister) : (init cfg persister).Watched := by
  obtain ⟨_, _, _, _, _, _, _, recovered⟩ := Raft.newRaft_eq cfg persister
  have raft : (init cfg persister).node.raft = (Raft.newRaft cfg persister).start := rfl
  rw [recovered] at raft
  refine ⟨?_, ?_, fun _ => .inl ?_⟩
  · rw [raft]
    rfl
  · rw [raft]
    rfl
  · rw [raft]
    rfl

/-- Arming the timer covers a node whatever its role. -/
theorem arm (watched : t.Watched) {fired rearming called : Nat} :
    Watched ⟨armed t.node, fired, rearming, called⟩ := by
  obtain ⟨timer, found⟩ := Option.isSome_iff_exists.mp watched.timer
  have armed : (armed t.node).raft.electionTimer = some true := by
    simp [Timed.armed, Raft.resetElectionTimerLocked, found]
  exact ⟨by rw [armed]; rfl, watched.running, fun _ => .inl armed⟩

/-- The first critical section of a campaign leaves a leader alone, and otherwise
the call goes on to arm the timer. -/
theorem becomeCandidate (watched : t.Watched) {node : Node}
    (stepped : t.node.step (.becomeCandidate {}) = some node) :
    node.raft.electionTimer = t.node.raft.electionTimer ∧
      node.raft.shutdown = t.node.raft.shutdown ∧
      (t.campaigns = false → node.raft.state = .leader) ∧
      (node.raft.state ≠ .leader → t.node.raft.state ≠ .leader) := by
  cases stepped
  simp only [campaigns, Raft.becomeCandidate, watched.running, Bool.false_eq_true, if_false,
    Raft.persist]
  split
  next leads => exact ⟨rfl, watched.running, fun _ => leads, id⟩
  next follows =>
    refine ⟨rfl, watched.running, ?_, fun _ => follows⟩
    simp

/-- A step of the node on its own. -/
theorem node (watched : t.Watched) {a : NodeAction} {node : Node} (own : a.timed = false)
    (stores : a.disk = {}) (rearms : deposed t.node.raft a = true → t.Covered)
    (stepped : t.node.step a = some node) : Watched { t with node } := by
  have effect := Node.roleEffect_of_step stepped
  obtain ⟨timer, found⟩ := Option.isSome_iff_exists.mp watched.timer
  generalize moved : node.raft.role = role at effect
  have state : node.raft.state = role.state := congrArg Role.state moved
  have electionTimer : node.raft.electionTimer = role.electionTimer :=
    congrArg Role.electionTimer moved
  have shutdown : node.raft.shutdown = role.shutdown := congrArg Role.shutdown moved
  -- a step that leaves the timer alone
  have kept : role.electionTimer = t.node.raft.electionTimer →
      role.shutdown = t.node.raft.shutdown → (role.state ≠ .leader → t.Covered) →
      Watched { t with node } := by
    intro sameTimer sameShutdown covered
    rw [sameTimer] at electionTimer
    refine ⟨?_, ?_, fun follows => ?_⟩
    · rw [electionTimer]
      exact watched.timer
    · rw [shutdown, sameShutdown]
      exact watched.running
    · exact (covered (state ▸ follows)).imp_left (electionTimer.trans ·)
  -- a step that arms it
  have armed : role.electionTimer = t.node.raft.rearmed →
      role.shutdown = t.node.raft.shutdown → Watched { t with node } := by
    intro newTimer sameShutdown
    have running : node.raft.electionTimer = some true := by
      rw [electionTimer, newTimer, Raft.rearmed, found, Option.map_some]
    refine ⟨?_, ?_, fun _ => .inl running⟩
    · rw [running]
      rfl
    · rw [shutdown, sameShutdown]
      exact watched.running
  cases effect with
  | keep => exact kept rfl rfl watched.covered
  | stand => cases own
  | lead candidate =>
      refine ⟨?_, ?_, fun follows => absurd state follows⟩
      · rw [electionTimer, found]
        rfl
      · rw [shutdown]
        exact watched.running
  | depose higher refused =>
      refine kept rfl rfl fun _ => ?_
      by_cases leads : t.node.raft.state = .leader
      · have stored := congrArg Disk.save stores
        have behind := refused.resolve_right (not_not.mpr stored)
        exact rearms (by simp [deposed, leads, higher, behind])
      · exact watched.covered leads
  | grant => exact armed rfl rfl
  | hear current => exact armed rfl rfl
  | hearSnapshot current => exact armed rfl rfl
  | stepDown demotes =>
      refine kept rfl rfl fun _ => ?_
      cases a with
      | requestVoteReply term resp =>
          refine watched.covered ?_
          rw [demotes.1]
          decide
      | appendEntriesReply peer req resp =>
          obtain ⟨leads, sameTerm, higher⟩ := demotes
          exact rearms (by simp [deposed, leads, ← sameTerm, higher])
      | installSnapshotReply peer req resp =>
          obtain ⟨leads, sameTerm, higher⟩ := demotes
          exact rearms (by simp [deposed, leads, ← sameTerm, higher])
      | _ => exact demotes.elim
  | restart => cases own

/-- Every step leaves a node that will campaign when it has to. -/
theorem step (watched : t.Watched) {a : TimedAction} (stores : Stores a)
    (rearms : t.Rearms a) (stepped : t.step a = some t') : t'.Watched := by
  cases a with
  | fire =>
      simp only [Timed.step] at stepped
      split at stepped
      · cases stepped
        exact ⟨rfl, watched.running, fun _ => .inr (Nat.add_pos_left (Nat.succ_pos _) _)⟩
      · cases stepped
  | campaign =>
      simp only [Timed.step] at stepped
      split at stepped
      next fired node _ moved =>
        obtain ⟨timer, shutdown, returns, -⟩ := watched.becomeCandidate moved
        cases stepped
        refine ⟨?_, ?_, fun follows => .inr ?_⟩
        · rw [timer]
          exact watched.timer
        · rw [shutdown]
          exact watched.running
        · cases goesOn : t.campaigns with
          | false => exact absurd (returns goesOn) follows
          | true => exact Nat.add_pos_right _ (by simp)
      · cases stepped
  | rearm =>
      simp only [Timed.step] at stepped
      split at stepped
      · cases stepped
      · cases stepped
        exact watched.arm
  | call =>
      simp only [Timed.step] at stepped
      split at stepped
      · cases stepped
      next node moved =>
        obtain ⟨timer, shutdown, -, follower⟩ := watched.becomeCandidate moved
        cases stepped
        refine ⟨?_, ?_, fun follows => ?_⟩
        · rw [timer]
          exact watched.timer
        · rw [shutdown]
          exact watched.running
        · exact (watched.covered (follower follows)).imp_left (timer.trans ·)
  | rearmCall =>
      simp only [Timed.step] at stepped
      split at stepped
      · cases stepped
      · cases stepped
        exact watched.arm
  | node a =>
      simp only [Timed.step] at stepped
      split at stepped
      · cases stepped
      next own =>
        split at stepped
        · cases stepped
        next node moved =>
          cases stepped
          exact watched.node ((Bool.not_eq_true _).mp own) stores rearms moved

end Watched

/-- A node that does not lead has its timer running, or is campaigning because it
fired: in every run of a started node whose storage works, with any order of calls,
requests and replies, in which no leader loses its role to a refused vote request or
to a reply while its timer is stopped. -/
theorem nonleader_covered {cfg : Config} {persister : Persister} {t : Timed}
    (run : Run step (fun t a => Stores a ∧ t.Rearms a) (init cfg persister) t)
    (follows : t.node.raft.state ≠ .leader) : t.Covered := by
  have watched : t.Watched := by
    apply run.invariant
    · exact .initial cfg persister
    · exact fun watched allowed stepped => watched.step allowed.1 allowed.2 stepped
  exact watched.covered follows

/-- A node of three is elected in term `1`. -/
def elected : List TimedAction :=
  [.fire, .campaign, .rearm, .node (.requestVoteReply 1 ⟨1, true⟩), .node .becomeLeader]

/-- It hears from the leader of term `2`. -/
def succeeded : List TimedAction :=
  elected ++ [.node (.appendEntries ⟨2, 1, 0, 0, [], 0⟩ {})]

theorem nonleader_covered_successor :
    ∃ t, Run step (fun t a => Stores a ∧ t.Rearms a) (init ⟨0, [1, 2], 0⟩ {}) t ∧
      t.node.raft.state = .follower ∧ t.node.raft.currentTerm = 2 ∧ t.Covered := by
  obtain ⟨t, run, follows, term⟩ :
      ∃ t, Run step (fun t a => Stores a ∧ t.Rearms a) (init ⟨0, [1, 2], 0⟩ {}) t ∧
        t.node.raft.state = .follower ∧ t.node.raft.currentTerm = 2 :=
    exists_run_of_perform succeeded _ (by decide +kernel)
  exact ⟨t, run, follows, term, nonleader_covered run (by rw [follows]; decide)⟩

/-- A peer answers its first heartbeat from term `2`. -/
def answeredFromAbove : List TimedAction :=
  elected ++ [.node (.appendEntriesReply 1 ⟨1, 0, 0, 0, [], 0⟩ ⟨2, false⟩)]

/-- It appends a command, and a peer with an empty log asks for its vote in term
`2`. -/
def outvoted : List TimedAction :=
  elected ++ [.node (.replicate [1] {}), .node (.requestVote ⟨2, 1, 0, 0⟩ {})]

/-- Either way it is a follower of term `2` whose timer is stopped, with no campaign
in progress. -/
theorem deposed_without_timer :
    (∃ t, Run step (fun _ a => Stores a) (init ⟨0, [1, 2], 0⟩ {}) t ∧
      t.node.raft.state = .follower ∧ t.node.raft.currentTerm = 2 ∧ ¬ t.Covered) ∧
    ∃ t, Run step (fun _ a => Stores a) (init ⟨0, [1, 2], 0⟩ {}) t ∧
      t.node.raft.state = .follower ∧ t.node.raft.currentTerm = 2 ∧ ¬ t.Covered :=
  ⟨exists_run_of_perform answeredFromAbove _ (by decide +kernel),
    exists_run_of_perform outvoted _ (by decide +kernel)⟩

end Timed

end DistribKV
