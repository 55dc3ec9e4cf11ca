import DistribKV.Cluster.Channels
import DistribKV.Cluster.CompactedAgreement
import DistribKV.KV.Answers
import DistribKV.System.Model

/-!
# Entries and the calls they belong to

A call of a client makes at most one log entry, and every entry of every log was
made by one call.  The entry of a call stays at its index in the book of its term,
so the term and the index tell calls apart, and an entry of the committed log leads
back to the call that is waiting for it.
-/

namespace DistribKV

open Consensus KV

namespace Cluster

variable {m : Membership} {s s' : Cluster} {a : Action}

/-- Only `ReplicateCommand` writes into a book. -/
theorem ledger_of_step (stepped : s.step m a = some s')
    (other : ∀ i cmd disk, a ≠ .replicate i cmd disk) :
    s'.ledger = s.ledger ∨
      ∃ i, s'.ledger = s.ledger.elect (s.node i).currentTerm i (s.whole i) := by
  obtain ⟨o, effect, applies⟩ := effect_of_step stepped
  rw [ledger_of_applies applies]
  cases effect with
  | replicate => exact absurd rfl (other _ _ _)
  | promote => exact .inr ⟨_, rfl⟩
  | recordMatch => exact .inl (ledgerOf_commitEvent _ _ _ _ _)
  | recordInstall => exact .inl (ledgerOf_commitEvent _ _ _ _ _)
  | _ => exact .inl rfl

/-- A successful `ReplicateCommand` writes its entry into the book of its term. -/
theorem ledger_of_replicate {i : Int} {cmd : Bytes} {disk : Disk} {index : Nat}
    (stepped : s.step m (.replicate i cmd disk) = some s')
    (called : ((s.node i).replicateCommand cmd disk).2 = .ok index) :
    (s.node i).state = .leader ∧ index = (s.node i).log.length + (s.node i).logBase + 1 ∧
      ((s.node i).replicateCommand cmd disk).1.currentTerm = (s.node i).currentTerm ∧
      s'.ledger = s.ledger.write (s.node i).currentTerm
        ⟨index, (s.node i).currentTerm, cmd⟩ := by
  cases result : (s.node i).replicateCommand cmd disk with
  | mk r outcome =>
      rw [result] at called
      rcases Raft.replicateCommand_cases result with
        ⟨-, err, failed⟩ | ⟨leads, entry, fresh, ok, stored⟩
      · rw [failed] at called
        cases called
      · rw [ok] at called
        cases called
        have term : r.currentTerm = (s.node i).currentTerm := by
          obtain ⟨_, _, -, moved⟩ :=
            (Raft.saved { s.node i with log := (s.node i).log ++ [entry] }).updateCommitIndex_eq
          rw [stored, moved]
          rfl
        subst fresh
        refine ⟨leads, rfl, term, ?_⟩
        simp only [step, result, ok] at stepped
        split at stepped
        · cases stepped
          simp only [ledger, List.append_assoc, ledgerOf_commitEvent]
          simp only [List.cons_append, List.nil_append, ledgerOf, term]
        · cases stepped

end Cluster

/-- Requests carry no ids. -/
theorem Request.clientId_op (req : Request) : req.op.clientId = 0 := by
  cases req <;> rfl

namespace System

open Cluster

/-! ## Reliable steps -/

/-- No process crashes.  Promotions are backed by a majority counted in their own term,
votes go to candidates that are up to date, and snapshots of other nodes fit and are
installed at rest.  A call whose index is committed finds its own entry there.  A server
that has been killed takes no more snapshots. -/
def Reliable (m : Membership) (s : System) : SystemAction → Prop
  | .restart _ => False
  | .raft a => s.cluster.PromotesByMajority m a ∧ s.cluster.VotesUpToDate a ∧
      s.cluster.SnapshotsFit a ∧ s.cluster.InstallsAtRest a
  | .poll call => ∀ entry ∈ s.entry call,
      (s.cluster.whole call.node)[entry.index - 1]? = some entry
  | .takeSnapshot i _ => (s.kv i).dead = false ∨ (s.cluster.node i).snapshotThreshold ≤ 0
  | _ => True

instance (m : Membership) (s : System) : DecidablePred (s.Reliable m)
  | .restart _ => .isFalse id
  | .raft a => inferInstanceAs (Decidable (s.cluster.PromotesByMajority m a ∧ _ ∧ _ ∧ _))
  | .poll call => inferInstanceAs (Decidable (∀ entry ∈ s.entry call, _))
  | .takeSnapshot i _ => inferInstanceAs (Decidable ((s.kv i).dead = false ∨ _))
  | .request _ _ _ | .replicate _ _ | .giveUp _ | .server _ _ | .apply _ _ | .drain _
  | .snapshot _ _ | .respond _ => .isTrue trivial

variable {m : Membership} {threshold : Int} {codec : CommandCodec}
variable {s s' : System} {a : SystemAction} {ack : Int → Nat → Nat}

theorem Reliable.running (reliable : s.Reliable m a) (i : Int) : a ≠ .restart i := by
  rintro rfl
  exact reliable

/-- What a reliable step is for the cluster.  The apply channel of a node is read by its
server only, and its server alone hands it snapshots. -/
inductive Drives (m : Membership) (s : System) (a : SystemAction) (s' : System) : Prop where
  | stays (cluster : s'.cluster = s.cluster)
  | steps {b : Action} (tidy : s.cluster.Tidy m b) (atRest : s.cluster.InstallsAtRest b)
      (stepped : s.cluster.step m b = some s'.cluster)
      (reads : ∀ i, b = .consume i → (∃ now, a = .apply i now) ∨ a = .drain i)
      (hands : ∀ i index data disk, b = .snapshot i index data disk →
        s.pending i = some (index, data))

theorem drives_of_effect (reliable : s.Reliable m a) (effect : Effect m codec s a s') :
    Drives m s a s' := by
  -- calls and servers neither crash nor promote, and deliver no messages
  have shared : ∀ {b : Action}, s.cluster.step m b = some s'.cluster → b.isShared = true →
      b.isRestart = false →
      (∀ i, b = .consume i → (∃ now, a = .apply i now) ∨ a = .drain i) →
      (∀ i index data disk, b = .snapshot i index data disk →
        s.pending i = some (index, data)) → Drives m s a s' := by
    intro b stepped isShared crashFree reads hands
    refine .steps ⟨⟨crashFree, ?_⟩, ?_, ?_⟩ ?_ stepped reads hands <;> cases b <;> trivial
  cases effect with
  | replicateFailed stepped => exact shared stepped rfl rfl (by simp) (by simp)
  | replicate _ _ stepped => exact shared stepped rfl rfl (by simp) (by simp)
  | poll _ stepped => exact shared stepped rfl rfl (by simp) (by simp)
  | giveUp stepped => exact shared stepped rfl rfl (by simp) (by simp)
  | apply _ stepped =>
      refine shared stepped rfl rfl ?_ (by simp)
      rintro i ⟨⟩
      exact .inl ⟨_, rfl⟩
  | drain _ _ stepped =>
      refine shared stepped rfl rfl ?_ (by simp)
      rintro i ⟨⟩
      exact .inr rfl
  | snapshot taken stepped =>
      refine shared stepped rfl rfl (by simp) ?_
      rintro i index data disk ⟨⟩
      exact taken
  | restart => exact reliable.elim
  | @raft b cluster own stepped =>
      obtain ⟨promotes, votes, fit, atRest⟩ := reliable
      refine .steps ⟨⟨?_, promotes⟩, votes, fit⟩ atRest stepped ?_ ?_
      · cases b with
        | restart => cases own
        | _ => rfl
      · rintro i rfl
        cases own
      · rintro i index data disk rfl
        cases own
  | _ => exact .stays rfl

/-- The guarantees of the cluster hold along the runs of the service. -/
theorem compacting_of_effect (compacting : Compacting m threshold s.cluster ack)
    (reliable : s.Reliable m a) (effect : Effect m codec s a s') :
    ∃ ack', Compacting m threshold s'.cluster ack' ∧
      (s.cluster.wholeRegister ack).Evolves (s'.cluster.wholeRegister ack') := by
  cases drives_of_effect reliable effect with
  | stays cluster => exact ⟨ack, by rw [cluster]; exact ⟨compacting, .refl _⟩⟩
  | steps tidy _ stepped => exact compacting.step tidy stepped

@[simp] theorem setKv_kv_self (s : System) (i : Int) (kv : Handlers) :
    (s.setKv i kv).kv i = kv := by simp [setKv]

/-! ## Who writes -/

/-- What a step does to the books and to the entries of the calls. -/
inductive Records (codec : CommandCodec) (s s' : System) : Prop where
  | keeps (ledger : s'.cluster.ledger = s.cluster.ledger) (entry : s'.entry = s.entry)
  | elects {i : Int}
      (ledger : s'.cluster.ledger = s.cluster.ledger.elect (s.cluster.node i).currentTerm i
        (s.cluster.whole i))
      (entry : s'.entry = s.entry)
  | writes {call : CallId} {req : Request} {new : LogEntry} (asked : s.request call = some req)
      (serialized : serializeCommand codec req.op = .ok new.command)
      (phase : (s.kv call.node).call call.number = .submitting)
      (entered : (s'.kv call.node).call call.number = .replicating new.index)
      (leads : (s.cluster.node call.node).state = .leader)
      (index : new.index = (s.cluster.node call.node).log.length +
        (s.cluster.node call.node).logBase + 1)
      (term : new.term = (s.cluster.node call.node).currentTerm)
      (ledger : s'.cluster.ledger = s.cluster.ledger.write new.term new)
      (entry : s'.entry = Function.update s.entry call (some new))

theorem records_of_effect (effect : Effect m codec s a s') : Records codec s s' := by
  -- a step of the cluster that is not a call's leaves the books alone or elects
  have other : ∀ {b : Action}, s.cluster.step m b = some s'.cluster → s'.entry = s.entry →
      (∀ i cmd disk, b ≠ .replicate i cmd disk) → Records codec s s' := by
    intro b stepped entry isOther
    rcases ledger_of_step stepped isOther with same | ⟨i, elected⟩
    · exact .keeps same entry
    · exact .elects elected entry
  cases effect with
  | @replicateFailed call disk data cluster err kv stepped called =>
      refine .keeps ?_ rfl
      cases result : (s.cluster.node call.node).replicateCommand data disk with
      | mk r outcome =>
          rw [result] at called
          simp only [Cluster.step, result, called] at stepped
          split at stepped
          · cases stepped
            rfl
          · cases stepped
  | @replicate call disk req data cluster index kv asked serialized stepped called appended =>
      obtain ⟨leads, indexEq, term, ledger⟩ := ledger_of_replicate stepped called
      have phase : (s.kv call.node).call call.number = .submitting ∧
          kv.call call.number = .replicating index := by
        cases Handlers.effect_of_step appended with
        | append phase => exact ⟨phase, Handlers.setCall_self _ _ _⟩
      rw [term]
      exact @Records.writes codec s _ call req ⟨index, _, data⟩ asked serialized phase.1
        (by rw [setKv_kv_self]; exact phase.2) leads indexEq rfl ledger rfl
  | poll _ stepped => exact other stepped rfl (by simp)
  | giveUp stepped => exact other stepped rfl (by simp)
  | apply _ stepped => exact other stepped rfl (by simp)
  | drain _ _ stepped => exact other stepped rfl (by simp)
  | snapshot _ stepped => exact other stepped rfl (by simp)
  | restart stepped => exact other stepped rfl (by simp)
  | @raft b cluster own stepped =>
      refine other stepped rfl ?_
      rintro i cmd disk rfl
      cases own
  | _ => exact .keeps rfl rfl

/-! ## What a server does -/

/-- What the server of node `i` does in a step of the service. -/
inductive Serves (codec : CommandCodec) (s : System) (a : SystemAction) (s' : System)
    (i : Int) : Prop where
  | stays (kv : s'.kv i = s.kv i)
  | refuses {number : Nat} (fresh : s.request ⟨i, number⟩ = none)
      (kv : s'.kv i = (s.kv i).setCall number (.returned (.error errNotLeader)))
  | steps {b : HandlerAction} {kv : Handlers}
      (stepped : (s.kv i).step codec.toJson b = some kv) (result : s'.kv i = kv)
      (anonymous : Handlers.Anonymous b)
      (submitted : ∀ number op encodeErr now, b = .submit number op encodeErr now →
        s.request ⟨i, number⟩ = none)
      (replicated : ∀ number, b = .replicated number → a = .poll ⟨i, number⟩)
      (applied : ∀ msg now, b = .apply msg now →
        a = .apply i now ∧ (s.cluster.node i).applyCh.head? = some msg)
      (appended : ∀ number index, b = .append number index →
        ∃ entry, s'.entry ⟨i, number⟩ = some entry ∧ entry.index = index)
  | settles {index : Nat}
      (kv : s'.kv i = { s.kv i with
        server := { (s.kv i).server with lastSnapshotIndex := index } })

theorem serves_of_effect (running : ∀ j, a ≠ .restart j) (effect : Effect m codec s a s')
    (i : Int) : Serves codec s a s' i := by
  -- it is enough to look at the node that acts
  have acts : ∀ {j : Int} {kv : Handlers}, s'.kv = Function.update s.kv j kv →
      (i = j → Serves codec s a s' i) → Serves codec s a s' i := by
    intro j kv result own
    by_cases here : i = j
    · exact own here
    · exact .stays (by rw [result, Function.update_of_ne here])
  cases effect with
  | refuse fresh =>
      refine acts rfl ?_
      rintro rfl
      exact .refuses fresh (setKv_kv_self _ _ _)
  | request fresh submitted =>
      refine acts rfl ?_
      rintro rfl
      refine .steps submitted (setKv_kv_self _ _ _) (Request.clientId_op _) ?_ (by simp)
        (by simp) (by simp)
      rintro number op encodeErr now ⟨⟩
      exact fresh
  | replicateFailed _ _ failed =>
      refine acts rfl ?_
      rintro rfl
      exact .steps failed (setKv_kv_self _ _ _) trivial (by simp) (by simp) (by simp)
        (by simp)
  | replicate _ _ _ _ appended =>
      refine acts rfl ?_
      rintro rfl
      refine .steps appended (setKv_kv_self _ _ _) trivial (by simp) (by simp) (by simp) ?_
      rintro number index ⟨⟩
      exact ⟨_, Function.update_self _ _ _, rfl⟩
  | poll _ _ replicated =>
      refine acts rfl ?_
      rintro rfl
      refine .steps replicated (setKv_kv_self _ _ _) trivial (by simp) ?_ (by simp) (by simp)
      rintro number ⟨⟩
      rfl
  | giveUp _ failed =>
      refine acts rfl ?_
      rintro rfl
      exact .steps failed (setKv_kv_self _ _ _) trivial (by simp) (by simp) (by simp)
        (by simp)
  | @server j b kv isLocal stepped =>
      refine acts rfl ?_
      rintro rfl
      refine .steps stepped (setKv_kv_self _ _ _) ?_ ?_ ?_ ?_ ?_
      · cases b with
        | submit => cases isLocal
        | _ => trivial
      · rintro number op encodeErr now rfl
        cases isLocal
      · rintro number rfl
        cases isLocal
      · rintro msg now rfl
        cases isLocal
      · rintro number index rfl
        cases isLocal
  | apply read _ applied =>
      refine acts rfl ?_
      rintro rfl
      refine .steps applied (setKv_kv_self _ _ _) trivial (by simp) (by simp) ?_ (by simp)
      rintro msg now ⟨⟩
      exact ⟨rfl, read⟩
  | @snapshot j disk index data cluster err taken stepped =>
      refine acts rfl ?_
      rintro rfl
      cases err with
      | none => exact .settles (by rw [setKv_kv_self]; rfl)
      | some err => exact .stays (by rw [setKv_kv_self]; rfl)
  | restart => exact absurd rfl (running _)
  | _ => exact .stays rfl

/-- A call that has made no entry yet had made none before. -/
theorem Serves.unentered {i : Int} (serves : Serves codec s a s' i) {number : Nat}
    (unentered : ((s'.kv i).call number).Unentered) : ((s.kv i).call number).Unentered := by
  cases serves with
  | stays kv => exact kv ▸ unentered
  | @refuses other _ kv =>
      rw [kv] at unentered
      by_cases own : number = other
      · subst own
        rw [Handlers.setCall_self] at unentered
        rcases unentered with phase | phase <;> cases phase
      · rwa [Handlers.setCall_of_ne _ _ own] at unentered
  | steps stepped result anonymous =>
      exact (Handlers.moves_of_step anonymous stepped number).unentered (result ▸ unentered)
  | settles kv =>
      rw [kv] at unentered
      exact unentered

/-! ## The invariant -/

/-- Calls and entries belong together. -/
structure Owned (codec : CommandCodec) (s : System) : Prop where
  invoked : ∀ {call req}, .invoked call req ∈ s.history ↔ s.request call = some req
  unentered : ∀ {call : CallId}, ((s.kv call.node).call call.number).Unentered →
    s.entry call = none
  aligned : ∀ t, Aligned 0 (s.cluster.ledger.book t)
  /-- A call that has an entry asked for it, and the book of its term holds it. -/
  written : ∀ {call entry}, s.entry call = some entry →
    (∃ req, s.request call = some req ∧ serializeCommand codec req.op = .ok entry.command) ∧
      (s.cluster.ledger.leader entry.term).isSome ∧
      (s.cluster.ledger.book entry.term)[entry.index - 1]? = some entry
  unique : ∀ {call other entry}, s.entry call = some entry → s.entry other = some entry →
    call = other
  /-- Every entry was made by a call. -/
  owned : ∀ t, ∀ entry ∈ s.cluster.ledger.book t, ∃ call, s.entry call = some entry

namespace Owned

theorem initial (m : Membership) (codec : CommandCodec) (threshold maxPending : Int) :
    Owned codec (init m threshold maxPending) where
  invoked := by simp [init]
  unentered _ := rfl
  aligned _ := .nil
  written found := by cases found
  unique found := by cases found
  owned _ _ member := by cases member

/-- The history and the requests go together. -/
theorem invoked_of_effect (owned : Owned codec s) (effect : Effect m codec s a s')
    {call : CallId} {req : Request} :
    .invoked call req ∈ s'.history ↔ s'.request call = some req := by
  -- a new invocation is the first of its call
  have asked : ∀ {new : CallId} {req' : Request}, s.request new = none →
      (.invoked call req ∈ ClientEvent.invoked new req' :: s.history ↔
        Function.update s.request new (some req') call = some req) := by
    intro new req' fresh
    rw [List.mem_cons, owned.invoked]
    by_cases same : call = new
    · subst same
      simp [fresh, eq_comm]
    · simp [same]
  cases effect with
  | refuse fresh => exact asked fresh
  | request fresh => exact asked fresh
  | respond =>
      rw [List.mem_cons, ← owned.invoked]
      exact ⟨fun member => member.resolve_left nofun, .inr⟩
  | _ => exact owned.invoked

/-- Requests are remembered. -/
theorem request_mono (effect : Effect m codec s a s') {call : CallId} {req : Request}
    (asked : s.request call = some req) : s'.request call = some req := by
  have kept : ∀ {new : CallId} {req' : Request}, s.request new = none →
      Function.update s.request new (some req') call = some req := by
    intro new req' fresh
    rw [Function.update_of_ne, asked]
    rintro rfl
    rw [fresh] at asked
    cases asked
  cases effect with
  | refuse fresh => exact kept fresh
  | request fresh => exact kept fresh
  | _ => exact asked

/-- The entry a leader writes comes after everything in its book. -/
theorem new_index (matched : Matched m threshold s.cluster) {i : Int} {new : LogEntry}
    (leads : (s.cluster.node i).state = .leader)
    (index : new.index = (s.cluster.node i).log.length + (s.cluster.node i).logBase + 1) :
    new.index = (s.cluster.ledger.book (s.cluster.node i).currentTerm).length + 1 := by
  rw [(matched.matching.leading i leads).2, whole, List.length_append, matched.shaped.based i,
    index]
  omega

/-- Entries stay in the books they were written into. -/
theorem written_mono (owned : Owned codec s) (effect : Effect m codec s a s')
    (extension : s.cluster.ledger.Extends s'.cluster.ledger) {call : CallId} {entry : LogEntry}
    (found : s.entry call = some entry) :
    (∃ req, s'.request call = some req ∧ serializeCommand codec req.op = .ok entry.command) ∧
      (s'.cluster.ledger.leader entry.term).isSome ∧
      (s'.cluster.ledger.book entry.term)[entry.index - 1]? = some entry := by
  obtain ⟨⟨req, asked, serialized⟩, led, inBook⟩ := owned.written found
  refine ⟨⟨req, request_mono effect asked, serialized⟩, extension.led led, ?_⟩
  obtain ⟨rest, split⟩ := extension.book entry.term led
  rw [← split, List.getElem?_append_left (List.getElem?_eq_some_iff.mp inBook).1, inBook]

theorem step (owned : Owned codec s) (matched : Matched m threshold s.cluster)
    (reliable : s.Reliable m a) (effect : Effect m codec s a s')
    (extension : s.cluster.ledger.Extends s'.cluster.ledger) : Owned codec s' := by
  have before : ∀ {call : CallId}, ((s'.kv call.node).call call.number).Unentered →
      s.entry call = none := fun unentered =>
    owned.unentered ((serves_of_effect reliable.running effect _).unentered unentered)
  cases records_of_effect effect with
  | keeps ledger entry =>
      refine ⟨owned.invoked_of_effect effect, ?_, ?_, ?_, ?_, ?_⟩
      · rw [entry]
        exact before
      · rw [ledger]
        exact owned.aligned
      · rw [entry]
        exact owned.written_mono effect extension
      · rw [entry]
        exact owned.unique
      · rw [ledger, entry]
        exact owned.owned
  | @elects i ledger entry =>
      refine ⟨owned.invoked_of_effect effect, ?_, fun t => ?_, ?_, ?_, fun t held member => ?_⟩
      · rw [entry]
        exact before
      · by_cases here : t = (s.cluster.node i).currentTerm
        · rw [ledger, here, Ledger.elect_book_self]
          exact matched.shaped.aligned i
        · rw [ledger, Ledger.elect_book_of_ne _ here]
          exact owned.aligned t
      · rw [entry]
        exact owned.written_mono effect extension
      · rw [entry]
        exact owned.unique
      · rw [entry]
        by_cases here : t = (s.cluster.node i).currentTerm
        · -- the new leader holds entries of earlier books
          rw [ledger, here, Ledger.elect_book_self] at member
          obtain ⟨front, back, split⟩ := List.append_of_mem member
          have rooted := matched.matching.rooted i front held (by rw [split]; simp)
          exact owned.owned _ _ (rooted.2.subset (by simp))
        · rw [ledger, Ledger.elect_book_of_ne _ here] at member
          exact owned.owned t held member
  | @writes call req new asked serialized phase entered leads index term ledger entry =>
      have last := new_index matched leads index
      rw [← term] at last
      have free : s.entry call = none := owned.unentered (.inr phase)
      -- no call has an entry with this term and index
      have fresh : ∀ other, s.entry other ≠ some new := by
        intro other found
        have inBook := (List.getElem?_eq_some_iff.mp (owned.written found).2.2).1
        omega
      refine ⟨owned.invoked_of_effect effect, fun {other} unentered => ?_, fun t => ?_,
        fun {other held} found => ?_, fun {first second held} found found' => ?_,
        fun t held member => ?_⟩
      · rw [entry, Function.update_of_ne]
        · exact before unentered
        rintro rfl
        rw [entered] at unentered
        rcases unentered with impossible | impossible <;> cases impossible
      · by_cases here : t = new.term
        · rw [ledger, here, Ledger.write_book_self]
          exact (owned.aligned _).concat (by omega)
        · rw [ledger, Ledger.write_book_of_ne _ here]
          exact owned.aligned t
      · rw [entry] at found
        by_cases own : other = call
        · subst own
          rw [Function.update_self] at found
          cases found
          refine ⟨⟨req, request_mono effect asked, serialized⟩, ?_, ?_⟩
          · rw [ledger, Ledger.write_leader, term, (matched.matching.leading _ leads).1]
            rfl
          · rw [ledger, Ledger.write_book_self, List.getElem?_append_right (by omega)]
            simp [last]
        · rw [Function.update_of_ne own] at found
          exact owned.written_mono effect extension found
      · rw [entry] at found found'
        by_cases own : first = call
        · by_cases own' : second = call
          · rw [own, own']
          · subst own
            rw [Function.update_self] at found
            rw [Function.update_of_ne own', ← found] at found'
            exact absurd found' (fresh _)
        · rw [Function.update_of_ne own] at found
          by_cases own' : second = call
          · subst own'
            rw [Function.update_self, ← found] at found'
            exact absurd found'.symm (fresh _)
          · rw [Function.update_of_ne own'] at found'
            exact owned.unique found found'
      · rw [entry]
        have old : ∀ t, held ∈ s.cluster.ledger.book t →
            ∃ other, Function.update s.entry call (some new) other = some held := by
          intro t member
          obtain ⟨other, found⟩ := owned.owned t held member
          refine ⟨other, ?_⟩
          rw [Function.update_of_ne, found]
          rintro rfl
          rw [free] at found
          cases found
        by_cases here : t = new.term
        · rw [ledger, here, Ledger.write_book_self] at member
          rcases List.mem_append.mp member with inBook | single
          · exact old _ inBook
          · exact ⟨call, by rw [Function.update_self, List.mem_singleton.mp single]⟩
        · rw [ledger, Ledger.write_book_of_ne _ here] at member
          exact old t member

end Owned

end System

end DistribKV
