import DistribKV.KV.Rpc
import DistribKV.Node.Roles

/-!
# Redirections

A node that does not lead answers clients with the id of the leader it names, and
the clerk follows that hint at once.  A hint that names the node itself sends the
client back.

`leaderId` is the node's own id while it leads.  Every way out of the leader's role
replaces it, except a `RequestVote` of a higher term.
-/

namespace DistribKV

open Consensus

namespace KV

/-- The id in a message, an `int32` on the wire, is not the node's own. -/
def NamesOther (r : Raft) (leaderId : Int) : Prop :=
  int32 leaderId = leaderId ∧ leaderId ≠ r.serverId

instance (r : Raft) (leaderId : Int) : Decidable (NamesOther r leaderId) :=
  inferInstanceAs (Decidable (_ ∧ _))

/-- A leader gets no vote request of a higher term, and messages of other leaders
carry other ids. -/
@[reducible] def KeepsHint (n : Node) : NodeAction → Prop
  | .requestVote req _ =>
      n.raft.state = .leader → n.raft.leaderId = n.raft.serverId →
        req.term ≤ n.raft.currentTerm
  | .appendEntries req _ => n.raft.currentTerm ≤ req.term → NamesOther n.raft req.leaderId
  | .installSnapshot req _ => n.raft.currentTerm ≤ req.term → NamesOther n.raft req.leaderId
  | _ => True

instance (n : Node) : DecidablePred (KeepsHint n) := NodeAction.decidable _

/-- A role in which the node names itself only as leader. -/
structure Hinted (role : Role) : Prop where
  valid : 0 ≤ role.serverId
  names : role.leaderId = role.serverId ∧ role.state = .leader ∨
    role.leaderId ≠ role.serverId ∧ int32 role.leaderId = role.leaderId

namespace Hinted

/-- A node that names nobody. -/
theorem of_none {role : Role} (valid : 0 ≤ role.serverId) (unknown : role.leaderId = -1) :
    Hinted role := by
  refine ⟨valid, .inr ⟨by omega, ?_⟩⟩
  rw [unknown]
  decide

theorem initial {cfg : Config} (valid : 0 ≤ cfg.serverId) (persister : Persister) :
    Hinted (Node.init cfg persister).raft.role := by
  obtain ⟨_, _, _, _, _, _, _, recovered⟩ := Raft.newRaft_eq cfg persister
  have raft : (Node.init cfg persister).raft = (Raft.newRaft cfg persister).start := rfl
  rw [recovered] at raft
  rw [raft]
  exact of_none valid rfl

theorem step {n n' : Node} {a : NodeAction} (hinted : Hinted n.raft.role)
    (keeps : KeepsHint n a) (stepped : n.step a = some n') : Hinted n'.raft.role := by
  have effect := Node.roleEffect_of_step stepped
  have valid := hinted.valid
  generalize n'.raft.role = role at effect
  cases effect with
  | keep => exact hinted
  | stand => exact .of_none valid rfl
  | lead candidate => exact ⟨valid, .inl ⟨rfl, rfl⟩⟩
  | depose higher refused =>
      refine ⟨valid, .inr (hinted.names.resolve_left ?_)⟩
      rintro ⟨self, leads⟩
      exact absurd (keeps leads self) (Nat.not_le.mpr higher)
  | grant =>
      refine ⟨valid, hinted.names.imp_left ?_⟩
      rintro ⟨self, leads⟩
      have current := keeps leads self
      exact ⟨self, (if_neg (Nat.not_lt.mpr current)).trans leads⟩
  | @hear req disk current =>
      by_cases leads : n.raft.stateIn req.term = .leader
      · have state : n.raft.state = .leader := by
          unfold Raft.stateIn at leads
          split at leads
          · cases leads
          · exact leads
        simp only [leads, if_true]
        exact ⟨valid, hinted.names.imp_left fun ⟨self, _⟩ => ⟨self, rfl⟩⟩
      · obtain ⟨fits, other⟩ := keeps current
        simp only [leads, if_false]
        exact ⟨valid, .inr ⟨other, fits⟩⟩
  | hearSnapshot current =>
      obtain ⟨fits, other⟩ := keeps current
      exact ⟨valid, .inr ⟨other, fits⟩⟩
  | stepDown demotes => exact .of_none valid rfl
  | restart => exact .of_none valid rfl

end Hinted

/-- A node never redirects clients to itself unless it leads: in every run of a
node with a valid id, with any order of calls, requests, replies, storage failures
and restarts, in which no leader gets a vote request of a higher term and the
messages of leaders carry other ids.  The node names itself only as leader, and no
redirection of the three handlers carries its id. -/
theorem never_redirects_to_self {cfg : Config} {persister : Persister} {n : Node}
    (valid : 0 ≤ cfg.serverId) (run : Run Node.step KeepsHint (.init cfg persister) n) :
    (n.raft.leaderId = n.raft.serverId → n.raft.state = .leader) ∧
      (n.raft.state ≠ .leader →
        (wrongLeaderGet n.raft).leaderId ≠ n.raft.serverId ∧
        (wrongLeaderPut n.raft).leaderId ≠ n.raft.serverId ∧
        (wrongLeaderAppend n.raft).leaderId ≠ n.raft.serverId) := by
  have hinted : Hinted n.raft.role := by
    apply run.invariant
    · exact .initial valid persister
    · exact fun hinted allowed stepped => hinted.step allowed stepped
  constructor
  · intro self
    rcases hinted.names with ⟨-, leads⟩ | ⟨other, -⟩
    · exact leads
    · exact absurd self other
  · intro follows
    obtain ⟨other, fits⟩ := hinted.names.resolve_left fun named => follows named.2
    have sent : int32 n.raft.getLeaderId ≠ n.raft.serverId := by
      rw [Raft.getLeaderId, if_neg follows]
      exact fun same => other (fits.symm.trans same)
    exact ⟨sent, sent, sent⟩

/-- Node `0` of three is elected in term `1`. -/
def elected : List NodeAction :=
  [.becomeCandidate {}, .requestVoteReply 1 ⟨1, true⟩, .becomeLeader]

/-- Node `1` succeeds it, and node `0` names node `1`. -/
theorem never_redirects_to_self_successor :
    ∃ n, Run Node.step KeepsHint (.init ⟨0, [1, 2], 0⟩ {}) n ∧
      n.raft.state = .follower ∧ (wrongLeaderGet n.raft).leaderId = 1 ∧
      (wrongLeaderGet n.raft).leaderId ≠ n.raft.serverId := by
  obtain ⟨n, run, follows, named⟩ :
      ∃ n, Run Node.step KeepsHint (.init ⟨0, [1, 2], 0⟩ {}) n ∧
        n.raft.state = .follower ∧ (wrongLeaderGet n.raft).leaderId = 1 :=
    exists_run_of_perform (elected ++ [.appendEntries ⟨2, 1, 0, 0, [], 0⟩ {}]) _
      (by decide +kernel)
  have redirects := (never_redirects_to_self (by decide) run).2 (by rw [follows]; decide)
  exact ⟨n, run, follows, named, redirects.1⟩

/-- Node `1` asks for its vote in term `2`.  Node `0` is a follower then and sends
its clients to node `0`. -/
theorem outvoted_leader_names_itself :
    ∃ n, Run Node.step (fun _ _ => True) (.init ⟨0, [1, 2], 0⟩ {}) n ∧
      n.raft.state = .follower ∧ n.raft.serverId = 0 ∧ n.raft.leaderId = 0 ∧
      wrongLeaderAppend n.raft = { wrongLeader := true, leaderId := 0 } :=
  exists_run_of_perform (elected ++ [.requestVote ⟨2, 1, 0, 0⟩ {}]) _ (by decide +kernel)

end KV

end DistribKV
