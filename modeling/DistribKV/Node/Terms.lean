import DistribKV.Node.Model

/-!
# Terms a node has announced

A node puts its term into every answer it gives and into every request it sends.
Once another node has seen a term, the sender must not fall behind it.

In memory terms only grow.  Not every branch that raises the term stores it:
`becomeCandidate` and a granted vote do, and so does an append that changes the
log, but a node that adopts a term from a heartbeat, from a refused request or
from a reply keeps it in memory only.  A restart at that point goes back to the
stored term.
-/

namespace DistribKV

/-! ## Answers -/

namespace Raft

variable {r r' : Raft} {disk : Disk}

theorem requestVote_reply_term {req : RequestVoteRequest} {resp : RequestVoteResponse}
    (called : r.requestVote req disk = (r', .ok resp)) : resp.term = r'.currentTerm := by
  cases requestVote_path called with
  | stale lower => rfl
  | refused current refuses => simp [current]
  | granted grants =>
      rw [grants.result]
      simp [resetElectionTimerLocked, saved, grants.current]

theorem appendEntries_reply_term {req : AppendEntriesRequest} {resp : AppendEntriesResponse}
    (called : r.appendEntries req disk = some (r', .ok resp)) :
    resp.term = r'.currentTerm := by
  cases appendEntries_path called with
  | stale lower => rfl
  | refused current hears => exact (hears_leader current hears).2.symm
  | stored hears accepts =>
      rw [advanceCommit_currentTerm]
      exact (hears_leader accepts.current hears).2.symm
  | unchanged hears accepts =>
      rw [advanceCommit_currentTerm]
      exact (hears_leader accepts.current hears).2.symm

theorem installSnapshot_reply_term {req : InstallSnapshotRequest}
    {resp : InstallSnapshotResponse} (called : r.installSnapshot req disk = (r', .ok resp)) :
    resp.term = r'.currentTerm := by
  cases installSnapshot_path called with
  | stale small lower => rfl
  | discarded hears small current useless =>
      rw [hears]
      exact (hearSnapshot_currentTerm current).symm
  | installed hears installs => exact installs.term.symm

end Raft

/-- The terms in the answers a node gives in one step. -/
def Node.answers (n : Node) : NodeAction → List Nat
  | .requestVote req disk =>
      match (n.raft.requestVote req disk).2 with
      | .error _ => []
      | .ok resp => [resp.term]
  | .appendEntries req disk =>
      match n.raft.appendEntries req disk with
      | some (_, .ok resp) => [resp.term]
      | _ => []
  | .installSnapshot req disk =>
      match (n.raft.installSnapshot req disk).2 with
      | .error _ => []
      | .ok resp => [resp.term]
  | _ => []

namespace Node

variable {n n' : Node} {a : NodeAction} {term : Nat}

/-- Every answer carries the term the node is left with. -/
theorem term_of_answer (stepped : n.step a = some n') (answered : term ∈ n.answers a) :
    term = n'.raft.currentTerm := by
  cases a with
  | requestVote req disk =>
      cases called : n.raft.requestVote req disk with
      | mk r reply =>
          cases reply with
          | error err => simp [answers, called] at answered
          | ok resp =>
              simp only [step, called] at stepped
              cases stepped
              simp only [answers, called, List.mem_singleton] at answered
              exact answered.trans (Raft.requestVote_reply_term called)
  | appendEntries req disk =>
      simp only [step] at stepped
      split at stepped
      · cases stepped
      next r reply called =>
        cases stepped
        cases reply with
        | error err => simp [answers, called] at answered
        | ok resp =>
            simp only [answers, called, List.mem_singleton] at answered
            exact answered.trans (Raft.appendEntries_reply_term called)
  | installSnapshot req disk =>
      cases called : n.raft.installSnapshot req disk with
      | mk r reply =>
          cases reply with
          | error err => simp [answers, called] at answered
          | ok resp =>
              simp only [step, called] at stepped
              cases stepped
              simp only [answers, called, List.mem_singleton] at answered
              exact answered.trans (Raft.installSnapshot_reply_term called)
  | _ => cases answered

/-- In memory the term never goes down. -/
theorem currentTerm_mono_of_effect (effect : NodeEffect n a n') (running : a ≠ .restart) :
    n.raft.currentTerm ≤ n'.raft.currentTerm := by
  cases effect with
  | yield yields => exact yields.term_le
  | stand stood =>
      rcases stood with rfl | rfl
      · exact Nat.le_succ _
      · exact Nat.le_succ _
  | grant grants =>
      rw [grants.result]
      exact (Raft.Yields.adoptTerm _ _).term_le
  | lead led =>
      subst led
      exact Nat.le_refl _
  | write _ stored =>
      subst stored
      exact Nat.le_refl _
  | append yields _ stored =>
      rw [stored]
      exact yields.term_le
  | compact _ _ _ compacted =>
      rw [compacted]
      exact Nat.le_refl _
  | install _ installs installed =>
      rw [installed]
      exact installs.yields.term_le
  | take => exact Nat.le_refl _
  | send => exact Nat.le_refl _
  | consume => exact Nat.le_refl _
  | restart => exact absurd rfl running

end Node

/-! ## Requests -/

/-- A node with the goroutines of its that have a term to send later, and the
terms it has sent so far.  `campaigns` holds the terms of the campaigns it has
started, `transfers` the snapshot transfers by peer and term. -/
structure Endpoint where
  node : Node
  campaigns : List Nat := []
  transfers : List (Int × Nat) := []
  announced : List Nat := []
  deriving DecidableEq, Repr

/-- A step of the node, or the sending of a request by one of its goroutines. -/
inductive EndpointAction where
  | node (a : NodeAction)
  | sendRequestVote (term : Nat)
  | sendAppendEntries (peer : Int) (term commitIdx : Nat)
  | sendInstallSnapshot (peer : Int) (term : Nat)
  deriving DecidableEq, Repr

namespace Endpoint

open Consensus

def init (cfg : Config) (persister : Persister) : Endpoint where
  node := Node.init cfg persister

/-- The campaigns under way after a step of the node. -/
def campaignsAfter (e : Endpoint) : NodeAction → List Nat
  | .becomeCandidate disk => (e.node.raft.becomeCandidate disk).2.toList ++ e.campaigns
  | .restart => []
  | _ => e.campaigns

/-- The transfers under way after a step of the node. -/
def transfersAfter (e : Endpoint) : NodeAction → List (Int × Nat)
  | .restart => []
  | _ => e.transfers

/-- The step function.  A crash ends all goroutines. -/
def step (e : Endpoint) : EndpointAction → Option Endpoint
  | .node a =>
      match e.node.step a with
      | none => none
      | some n =>
          some {
            node := n
            campaigns := e.campaignsAfter a
            transfers := e.transfersAfter a
            announced := e.node.answers a ++ e.announced }
  | .sendRequestVote term =>
      if term ∈ e.campaigns then
        some { e with
          announced := (e.node.raft.requestVoteRequest term).term :: e.announced }
      else none
  | .sendAppendEntries peer term commitIdx =>
      match e.node.raft.sendAppendEntries peer term commitIdx with
      | .nothing => some e
      | .installSnapshot => some { e with transfers := (peer, term) :: e.transfers }
      | .request req => some { e with announced := req.term :: e.announced }
  | .sendInstallSnapshot peer term =>
      if (peer, term) ∈ e.transfers then
        match e.node.raft.sendInstallSnapshot peer term with
        | none => some e
        | some req => some { e with announced := req.term :: e.announced }
      else none

/-- Terms are not exhausted, and a crash finds the current term stored. -/
@[reducible] def KeepsTerm (n : Node) : NodeAction → Prop
  | .becomeCandidate _ => n.raft.currentTerm < maxInt
  | .restart => n.raft.persister.term = n.raft.currentTerm
  | _ => True

instance (n : Node) : DecidablePred (KeepsTerm n) := NodeAction.decidable _

def TermStored (e : Endpoint) : EndpointAction → Prop
  | .node a => KeepsTerm e.node a
  | _ => True

instance (e : Endpoint) : DecidablePred e.TermStored
  | .node a => inferInstanceAs (Decidable (KeepsTerm e.node a))
  | .sendRequestVote _ | .sendAppendEntries _ _ _ | .sendInstallSnapshot _ _ => .isTrue trivial

/-- No term of the endpoint is ahead of the node. -/
structure Abreast (e : Endpoint) : Prop where
  campaigns : ∀ term ∈ e.campaigns, term ≤ e.node.raft.currentTerm
  transfers : ∀ transfer ∈ e.transfers, transfer.2 ≤ e.node.raft.currentTerm
  announced : ∀ term ∈ e.announced, term ≤ e.node.raft.currentTerm

variable {e e' : Endpoint} {a : EndpointAction}

/-- Announcing a term that is not ahead. -/
theorem Abreast.announce (abreast : e.Abreast) {term : Nat}
    (behind : term ≤ e.node.raft.currentTerm) :
    Abreast { e with announced := term :: e.announced } where
  campaigns := abreast.campaigns
  transfers := abreast.transfers
  announced := List.forall_mem_cons.mpr ⟨behind, abreast.announced⟩

/-- A campaign is started in the term the node has just stored. -/
theorem campaign_le {disk : Disk} {n : Node} {term : Nat}
    (stepped : e.node.step (.becomeCandidate disk) = some n)
    (started : term ∈ (e.node.raft.becomeCandidate disk).2.toList) :
    term ≤ n.raft.currentTerm := by
  cases stepped
  cases called : e.node.raft.becomeCandidate disk with
  | mk r campaign =>
      rw [called, Option.mem_toList] at started
      rcases Raft.becomeCandidate_cases called with
        ⟨-, rfl⟩ | ⟨-, ⟨-, rfl⟩ | ⟨rfl, rfl⟩⟩
      · cases started
      · cases started
      · cases started
        exact Nat.le_refl _

/-- A step of the node keeps all terms behind it, if a crash finds the current
term stored. -/
theorem Abreast.node_step (abreast : e.Abreast) {b : NodeAction} {n : Node}
    (stored : e.TermStored (.node b)) (stepped : e.node.step b = some n) :
    Abreast {
      node := n
      campaigns := e.campaignsAfter b
      transfers := e.transfersAfter b
      announced := e.node.answers b ++ e.announced } := by
  have ahead : e.node.raft.currentTerm ≤ n.raft.currentTerm := by
    by_cases crash : b = .restart
    · subst crash
      cases stepped
      rw [Raft.restart_currentTerm]
      exact Nat.le_of_eq (Eq.symm stored)
    · exact Node.currentTerm_mono_of_effect (Node.effect_of_step stepped) crash
  constructor
  · intro term member
    cases b with
    | becomeCandidate disk =>
        rcases List.mem_append.mp member with started | old
        · exact campaign_le stepped started
        · exact Nat.le_trans (abreast.campaigns term old) ahead
    | restart => cases member
    | _ => exact Nat.le_trans (abreast.campaigns term member) ahead
  · intro transfer member
    cases b with
    | restart => cases member
    | _ => exact Nat.le_trans (abreast.transfers transfer member) ahead
  · intro term member
    rcases List.mem_append.mp member with answered | old
    · exact Nat.le_of_eq (Node.term_of_answer stepped answered)
    · exact Nat.le_trans (abreast.announced term old) ahead

theorem Abreast.step (abreast : e.Abreast) (stored : e.TermStored a)
    (stepped : e.step a = some e') : e'.Abreast := by
  cases a with
  | node b =>
      simp only [Endpoint.step] at stepped
      split at stepped
      · cases stepped
      next moved =>
        cases stepped
        exact abreast.node_step stored moved
  | sendRequestVote term =>
      simp only [Endpoint.step] at stepped
      split at stepped
      next pending =>
        cases stepped
        exact abreast.announce (abreast.campaigns term pending)
      · cases stepped
  | sendAppendEntries peer term commitIdx =>
      simp only [Endpoint.step] at stepped
      split at stepped
      · cases stepped
        exact abreast
      next sent =>
        obtain ⟨-, current⟩ := Raft.sendAppendEntries_installSnapshot sent
        have behind : term ≤ e.node.raft.currentTerm := Nat.le_of_eq current.symm
        cases stepped
        exact ⟨abreast.campaigns, List.forall_mem_cons.mpr ⟨behind, abreast.transfers⟩,
          abreast.announced⟩
      next req sent =>
        obtain ⟨-, current, nextIdx, -, rfl⟩ := Raft.sendAppendEntries_request sent
        cases stepped
        exact abreast.announce (Nat.le_of_eq current.symm)
  | sendInstallSnapshot peer term =>
      simp only [Endpoint.step] at stepped
      split at stepped
      next pending =>
        split at stepped
        · cases stepped
          exact abreast
        next req sent =>
          obtain rfl := Raft.sendInstallSnapshot_request sent
          cases stepped
          exact abreast.announce (abreast.transfers _ pending)
      · cases stepped

/-- Terms never go backwards: in every run in which the node stands for election only
below the greatest term and each crash finds the current term stored, every term the
node has put into an answer or a request is at most its current term, in every state
the run reaches. -/
theorem announced_le_currentTerm {cfg : Config} {p : Persister}
    (run : Run Endpoint.step TermStored (init cfg p) e) :
    ∀ term ∈ e.announced, term ≤ e.node.raft.currentTerm := by
  have abreast : e.Abreast :=
    run.invariant ⟨by simp [init], by simp [init], by simp [init]⟩
      fun abreast stored stepped => abreast.step stored stepped
  exact abreast.announced

/-- A node stands for election, asks for votes and crashes. -/
def storedTerm : List EndpointAction :=
  [.node (.becomeCandidate {}), .sendRequestVote 1, .node .restart]

theorem announced_le_currentTerm_stored :
    ∃ e, Run Endpoint.step TermStored (init ⟨0, [1, 2], 0⟩ {}) e ∧ 1 ∈ e.announced ∧
      1 ≤ e.node.raft.currentTerm := by
  obtain ⟨e, run, announced⟩ :
      ∃ e, Run Endpoint.step TermStored (init ⟨0, [1, 2], 0⟩ {}) e ∧ 1 ∈ e.announced :=
    exists_run_of_perform storedTerm _ (by decide +kernel)
  exact ⟨e, run, announced, announced_le_currentTerm run 1 announced⟩

/-- A node answers a heartbeat of term `5` and crashes. -/
def forgottenTerm : List EndpointAction :=
  [.node (.appendEntries ⟨5, 0, 0, 0, [], 0⟩ {}), .node .restart]

/-- It has announced term `5`, and is in term `0`. -/
theorem restart_forgets_term :
    ∃ e, Run Endpoint.step (fun _ _ => True) (init ⟨1, [0, 2], 0⟩ {}) e ∧
      5 ∈ e.announced ∧ e.node.raft.currentTerm = 0 :=
  exists_run_of_perform forgottenTerm _ (by decide +kernel)

end Endpoint

end DistribKV
