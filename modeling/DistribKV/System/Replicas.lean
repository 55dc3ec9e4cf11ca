import DistribKV.Consensus.Linearizable
import DistribKV.System.Entries

/-!
# Servers as replicas of the committed log

A key-value server has processed the beginning of the committed log, and the messages on
their way to it lead on: an entry is the next one of the log, and a snapshot is an image
of the log up to its index.  The map of a server is therefore the one a sequential store
has after the operations of that beginning, and whatever the server tells a handler is
the answer of the store.  So are the snapshots that it hands to its node, which other
nodes install.

A server that has been killed loses messages, and nothing is said about its map.
-/

namespace DistribKV

open Consensus

/-! ## The sequential store -/

namespace KV

/-- What a client learns from a response. -/
inductive Reply where
  | done
  | found (value : String)
  | missing
  deriving DecidableEq, Repr

/-- The answer to an operation on a store with the given contents. -/
def Op.answer (op : Op) (contents : Contents) : Reply :=
  match op.kind with
  | .get =>
      match contents op.key with
      | none => .missing
      | some value => .found value
  | _ => .done

/-- A key-value store that executes one operation after the other. -/
def store : Sequential Contents Op Reply where
  initial _ := none
  apply contents op := op.effect contents
  answer contents op := op.answer contents

/-- The result of an operation on a store with the given contents. -/
def Op.result (op : Op) (contents : Contents) : Result :=
  match op.kind with
  | .put | .append => {}
  | .get =>
      match contents op.key with
      | none => { err := some errKeyNotFound }
      | some value => { value }
  | .unknown code => { err := some ("unknown op type: " ++ toString code) }

theorem Server.applyCommandLocked_result (s : Server) (op : Op) :
    (s.applyCommandLocked op).2 = op.result s.state.contents := by
  unfold applyCommandLocked Op.result
  cases op.kind with
  | get =>
      simp only [Store.contents]
      cases s.state.lookup op.key <;> rfl
  | _ => rfl

/-- A command without ids is executed and answered on the contents of the map. -/
theorem Server.processApplyMsg_command (s : Server) {json : Json} {command : Bytes} {op : Op}
    (decoded : deserializeCommand json command = .ok op) (anonymous : op.clientId = 0)
    (index : Nat) (now : Moment) :
    (s.processApplyMsg json now (.command command index)).notified =
        some (index, op.result s.state.contents) ∧
      (s.processApplyMsg json now (.command command index)).server.state.contents =
        op.effect s.state.contents ∧
      (s.processApplyMsg json now (.command command index)).server.lastApplied = index := by
  rw [s.processApplyMsg_of_anonymous decoded anonymous]
  obtain ⟨contents, lastApplied⟩ := s.execute_contents op index now
  refine ⟨?_, contents, lastApplied⟩
  simp only [execute, applyCommandLocked_result]

end KV

open KV

/-- The operations in a log. -/
def operations (codec : CommandCodec) (log : List LogEntry) : List Op :=
  log.filterMap fun entry => (deserializeCommand codec.toJson entry.command).toOption

/-- The contents of the store after the operations of a log. -/
def replay (codec : CommandCodec) (log : List LogEntry) : Contents :=
  store.after (operations codec log)

theorem replay_concat {codec : CommandCodec} {log : List LogEntry} {entry : LogEntry} {op : Op}
    (decoded : deserializeCommand codec.toJson entry.command = .ok op) :
    replay codec (log ++ [entry]) = op.effect (replay codec log) := by
  have one : operations codec (log ++ [entry]) = operations codec log ++ [op] := by
    simp [operations, decoded, Except.toOption]
  rw [replay, one, Sequential.after, List.foldl_append]
  rfl

/-- The data of a snapshot decodes to the contents of the store after a log. -/
def Image (codec : CommandCodec) (data : Bytes) (log : List LogEntry) : Prop :=
  ∃ state dedup, deserializeSnapshot codec.toJson data = .ok (state, dedup) ∧
    Store.contents state = replay codec log

/-- The three kinds of operations survive the conversion. -/
theorem Request.kind_op (req : Request) :
    OpKind.ofProto req.op.kind.toProto = req.op.kind := by
  cases req <;> rfl

namespace System

open Cluster

variable {m : Membership} {threshold : Int} {codec : CommandCodec}
variable {s s' : System} {a : SystemAction} {ack ack' : Int → Nat → Nat}
variable {log done stop : List LogEntry} {entry : LogEntry} {i : Int}

/-- The entries are the beginning of the committed log. -/
abbrev Settled (m : Membership) (s : System) (ack : Int → Nat → Nat) (log : List LogEntry) :
    Prop :=
  (s.cluster.wholeRegister ack).Settled LogEntry.term (population m) log

/-- The entry of a call is its operation. -/
theorem Owned.decodes_entry (owned : Owned codec s) {call : CallId} {req : Request}
    (found : s.entry call = some entry) (asked : s.request call = some req) :
    deserializeCommand codec.toJson entry.command = .ok req.op := by
  obtain ⟨⟨req', asked', serialized⟩, -⟩ := owned.written found
  rw [asked] at asked'
  cases asked'
  exact deserializeCommand_serializeCommand req.kind_op serialized

/-- An entry of the committed log is the operation of the call that made it. -/
theorem Owned.decodes (owned : Owned codec s) (settled : s.Settled m ack log)
    (member : entry ∈ log) :
    ∃ call req, s.entry call = some entry ∧ s.request call = some req ∧
      deserializeCommand codec.toJson entry.command = .ok req.op := by
  obtain ⟨t, -, inBook⟩ := settled.mem_book member
  obtain ⟨call, found⟩ := owned.owned t entry (inBook.subset member)
  obtain ⟨⟨req, asked, -⟩, -⟩ := owned.written found
  exact ⟨call, req, found, asked, owned.decodes_entry found asked⟩

/-- The last entry of a settled log has the index of its place. -/
theorem Owned.index_eq (owned : Owned codec s) (settled : s.Settled m ack (log ++ [entry])) :
    entry.index = log.length + 1 := by
  have last : entry ∈ log ++ [entry] := by simp
  obtain ⟨t, -, inBook⟩ := settled.mem_book last
  have index := ((owned.aligned t).of_isPrefix inBook) log.length entry (by simp)
  omega

/-! ## Replicas -/

/-- The server has processed a log. -/
structure Holds (codec : CommandCodec) (server : Server) (log : List LogEntry) : Prop where
  contents : server.state.contents = replay codec log
  lastApplied : server.lastApplied = log.length

/-- Messages that bring a server from one beginning of the committed log to another. -/
inductive Brings (m : Membership) (codec : CommandCodec) (s : System) (ack : Int → Nat → Nat) :
    List LogEntry → List ApplyMsg → List LogEntry → Prop where
  | nothing {log : List LogEntry} (settled : s.Settled m ack log) :
      Brings m codec s ack log [] log
  | command {log stop : List LogEntry} {entry : LogEntry} {rest : List ApplyMsg}
      (brings : Brings m codec s ack (log ++ [entry]) rest stop) :
      Brings m codec s ack log (entry.message :: rest) stop
  | snapshot {log covered stop : List LogEntry} {data : Bytes} {term : Nat}
      {rest : List ApplyMsg} (settled : s.Settled m ack log) (image : Image codec data covered)
      (onward : log.length ≤ covered.length)
      (brings : Brings m codec s ack covered rest stop) :
      Brings m codec s ack log (.snapshot data covered.length term :: rest) stop

/-- The result of the entry at an index of the committed log. -/
def Right (m : Membership) (codec : CommandCodec) (s : System) (ack : Int → Nat → Nat)
    (index : Nat) (result : Result) : Prop :=
  ∃ front entry op, s.Settled m ack (front ++ [entry]) ∧ index = front.length + 1 ∧
    deserializeCommand codec.toJson entry.command = .ok op ∧
    result = op.result (replay codec front)

namespace Brings

variable {messages more rest : List ApplyMsg}

theorem settled (brings : Brings m codec s ack log messages stop) : s.Settled m ack log := by
  induction brings with
  | nothing settled => exact settled
  | command _ ih => exact ih.of_isPrefix (List.prefix_append _ _)
  | snapshot settled => exact settled

theorem settled_stop (brings : Brings m codec s ack log messages stop) :
    s.Settled m ack stop := by
  induction brings with
  | nothing settled => exact settled
  | command _ ih => exact ih
  | snapshot _ _ _ _ ih => exact ih

/-- Messages never lead back. -/
theorem length_le (brings : Brings m codec s ack log messages stop) :
    log.length ≤ stop.length := by
  induction brings with
  | nothing => exact le_rfl
  | command _ ih =>
      rw [List.length_append] at ih
      omega
  | snapshot _ _ onward _ ih => exact onward.trans ih

theorem append (brings : Brings m codec s ack log messages done)
    (onward : Brings m codec s ack done more stop) :
    Brings m codec s ack log (messages ++ more) stop := by
  induction brings with
  | nothing => exact onward
  | command _ ih => exact .command (ih onward)
  | snapshot settled image further _ ih => exact .snapshot settled image further (ih onward)

theorem evolve (brings : Brings m codec s ack log messages stop)
    (evolution : (s.cluster.wholeRegister ack).Evolves (s'.cluster.wholeRegister ack')) :
    Brings m codec s' ack' log messages stop := by
  induction brings with
  | nothing settled => exact .nothing (settled.evolve evolution)
  | command _ ih => exact .command ih
  | snapshot settled image onward _ ih =>
      exact .snapshot (settled.evolve evolution) image onward ih

/-- A server that reads the next message holds the log that the message leads to, and
tells the result of the entry in it. -/
theorem executes {msg : ApplyMsg} (brings : Brings m codec s ack done (msg :: rest) stop)
    (owned : Owned codec s) (now : Moment) :
    ∃ done', Brings m codec s ack done' rest stop ∧ ∀ server : Server, Holds codec server done →
      Holds codec (server.processApplyMsg codec.toJson now msg).server done' ∧
        ∀ index result, (server.processApplyMsg codec.toJson now msg).notified =
          some (index, result) → s.Right m codec ack index result := by
  cases brings with
  | @command _ _ entry _ brings =>
      refine ⟨_, brings, fun server holds => ?_⟩
      have settled := brings.settled
      have last : entry ∈ done ++ [entry] := by simp
      obtain ⟨call, req, -, -, decoded⟩ := owned.decodes settled last
      have index := owned.index_eq settled
      obtain ⟨notified, state, lastApplied⟩ :=
        server.processApplyMsg_command decoded req.clientId_op entry.index now
      refine ⟨⟨?_, ?_⟩, fun index' result same => ?_⟩
      · rw [LogEntry.message, state, holds.contents, replay_concat decoded]
      · rw [LogEntry.message, lastApplied, index, List.length_append, List.length_singleton]
      · rw [LogEntry.message, notified] at same
        cases same
        exact ⟨done, entry, req.op, settled, index, decoded, by rw [holds.contents]⟩
  | @snapshot _ covered _ data term _ _ image _ brings =>
      refine ⟨covered, brings, fun server _ => ?_⟩
      obtain ⟨state, dedup, decoded, contents⟩ := image
      simp only [Server.processApplyMsg, Server.handleSnapshotMsg, decoded]
      exact ⟨⟨contents, rfl⟩, by simp⟩

end Brings

/-- The server of node `i` has processed `done`, and the messages on their way bring it
to `stop`, where the apply loop of the node stands. -/
structure FedBy (m : Membership) (codec : CommandCodec) (s : System) (ack : Int → Nat → Nat)
    (i : Int) (done stop : List LogEntry) : Prop where
  brings : Brings m codec s ack done
    ((s.cluster.node i).applyCh ++ (s.cluster.applying i).toList) stop
  length : stop.length = (s.cluster.node i).lastApplied
  reached : (s.cluster.node i).lastApplied ≤ (s.cluster.node i).commitIndex
  holds : (s.kv i).dead = false → Holds codec (s.kv i).server done

namespace FedBy

/-- What the server has processed is the beginning of the committed log of its node. -/
theorem eq_take (fed : s.FedBy m codec ack i done stop)
    (compacting : Compacting m threshold s.cluster ack) :
    done.length ≤ (s.cluster.node i).commitIndex ∧
      done = (s.cluster.whole i).take done.length := by
  have committed : done.length ≤ (s.cluster.node i).commitIndex :=
    (fed.brings.length_le.trans_eq fed.length).trans fed.reached
  exact ⟨committed, compacting.eq_take fed.brings.settled committed⟩

/-- The next message. -/
theorem next (fed : s.FedBy m codec ack i done stop) {msg : ApplyMsg}
    (read : (s.cluster.node i).applyCh.head? = some msg) :
    Brings m codec s ack done
      (msg :: ((s.cluster.node i).applyCh.tail ++ (s.cluster.applying i).toList)) stop := by
  have brings := fed.brings
  cases channel : (s.cluster.node i).applyCh with
  | nil =>
      rw [channel] at read
      cases read
  | cons first queue =>
      rw [channel] at read brings
      cases read
      exact brings

/-- A step in which nothing is read leaves the server at its place. -/
theorem flow (fed : s.FedBy m codec ack i done stop)
    (compacting : Compacting m threshold s.cluster ack)
    (depicts : Depicts (Image codec) s.cluster) {b : Action}
    (pipes : Pipes s.cluster b s'.cluster i) (unread : b ≠ .consume i)
    (evolution : (s.cluster.wholeRegister ack).Evolves (s'.cluster.wholeRegister ack'))
    (holds : (s'.kv i).dead = false → Holds codec (s'.kv i).server done) :
    ∃ stop', s'.FedBy m codec ack' i done stop' := by
  have length := fed.length
  have reached := fed.reached
  have brings := fed.brings
  cases pipes with
  | keeps commit lastApplied applyCh applying =>
      refine ⟨stop, ?_, length.trans lastApplied.symm, by omega, holds⟩
      rw [applyCh, applying]
      exact brings.evolve evolution
  | @takes entry idle pending found commit lastApplied applyCh applying =>
      -- the entry taken continues the committed log
      have next : stop ++ [entry] =
          (s.cluster.whole i).take ((s.cluster.node i).lastApplied + 1) := by
        have same := compacting.eq_take brings.settled_stop (i := i) (by omega)
        rw [List.take_add_one, found, ← length, ← same]
        rfl
      have settled : s.Settled m ack (stop ++ [entry]) := by
        rw [next]
        exact (compacting.take_settled i).of_isPrefix (List.take_prefix_take_left pending)
      refine ⟨stop ++ [entry], ?_, by rw [lastApplied, ← length]; simp, by omega, holds⟩
      rw [idle, Option.toList_none, List.append_nil] at brings
      rw [applyCh, applying]
      exact (brings.append (.command (.nothing settled))).evolve evolution
  | sends held commit lastApplied applyCh applying =>
      refine ⟨stop, ?_, length.trans lastApplied.symm, by omega, holds⟩
      rw [held, Option.toList_some] at brings
      rw [applyCh, applying, Option.toList_none, List.append_nil]
      exact brings.evolve evolution
  | reads action => exact absurd action unread
  | @installs src req covered inNet idle fresh commit lastApplied applyCh applying =>
      have arrived := compacting.settling.snapshots inNet
      obtain ⟨-, covers, -⟩ := compacting.founded.matched.shaped.snapshots inNet
      refine ⟨covered, ?_, covers.trans lastApplied.symm, by omega, holds⟩
      rw [idle, Option.toList_none, List.append_nil] at brings
      rw [applyCh, applying, Option.toList_none, List.append_nil, ← covers]
      exact (brings.append (.snapshot brings.settled_stop (depicts.packets inNet) (by omega)
        (.nothing arrived))).evolve evolution

end FedBy

/-- The server of node `i` is a replica of the committed log. -/
def Fed (m : Membership) (codec : CommandCodec) (s : System) (ack : Int → Nat → Nat)
    (i : Int) : Prop :=
  ∃ done stop, s.FedBy m codec ack i done stop

/-- A server that reads no message keeps its map. -/
theorem Serves.holds (serves : Serves codec s a s' i) (unread : ∀ now, a ≠ .apply i now)
    (holds : (s.kv i).dead = false → Holds codec (s.kv i).server done)
    (alive : (s'.kv i).dead = false) : Holds codec (s'.kv i).server done := by
  cases serves with
  | stays kv =>
      rw [kv] at alive ⊢
      exact holds alive
  | refuses _ kv =>
      rw [kv] at alive ⊢
      exact holds alive
  | @steps b kv stepped result anonymous _ _ applied =>
      have other : ∀ msg now, b ≠ .apply msg now := by
        intro msg now isApply
        exact unread now (applied msg now isApply).1
      obtain ⟨server, stays⟩ := Handlers.server_of_step anonymous other stepped
      rw [result] at alive ⊢
      rw [server]
      exact holds (stays alive)
  | settles kv =>
      rw [kv] at alive ⊢
      exact ⟨(holds alive).contents, (holds alive).lastApplied⟩

/-- The cluster seen from the server of node `i`. -/
theorem pipes_of_effect (shaped : Shaped s.cluster) (reliable : s.Reliable m a)
    (effect : Effect m codec s a s') (i : Int) :
    ∃ b, Pipes s.cluster b s'.cluster i ∧
      (b = .consume i → (∃ now, a = .apply i now) ∨ a = .drain i) := by
  cases drives_of_effect reliable effect with
  | stays cluster => refine ⟨.heartbeat i, .keeps ?_ ?_ ?_ ?_, by simp⟩ <;> rw [cluster]
  | steps tidy atRest stepped reads =>
      exact ⟨_, shaped.pipes_of_step tidy.1.running atRest stepped i, reads i⟩

theorem Right.evolve {index : Nat} {result : Result} (right : s.Right m codec ack index result)
    (evolution : (s.cluster.wholeRegister ack).Evolves (s'.cluster.wholeRegister ack')) :
    s'.Right m codec ack' index result := by
  obtain ⟨front, entry, op, settled, rest⟩ := right
  exact ⟨front, entry, op, settled.evolve evolution, rest⟩

/-- Every server stays a replica. -/
theorem Fed.step (fed : s.Fed m codec ack i) (compacting : Compacting m threshold s.cluster ack)
    (depicts : Depicts (Image codec) s.cluster) (owned : Owned codec s)
    (reliable : s.Reliable m a) (effect : Effect m codec s a s')
    (evolution : (s.cluster.wholeRegister ack).Evolves (s'.cluster.wholeRegister ack')) :
    s'.Fed m codec ack' i := by
  obtain ⟨done, stop, fed⟩ := fed
  have serves := serves_of_effect reliable.running effect i
  -- unless its server reads a message, a node fills its channel at most
  have unread : (∀ now, a ≠ .apply i now) → a ≠ .drain i → s'.Fed m codec ack' i := by
    intro notApply notDrain
    obtain ⟨b, pipes, reads⟩ :=
      pipes_of_effect compacting.founded.matched.shaped reliable effect i
    obtain ⟨stop', fed'⟩ := fed.flow compacting depicts pipes
      (fun read => (reads read).elim (fun ⟨now, same⟩ => notApply now same) notDrain) evolution
      (serves.holds notApply fed.holds)
    exact ⟨done, stop', fed'⟩
  cases effect with
  | @apply j now msg cluster kv triggered read stepped applied =>
      by_cases here : i = j
      · subst here
        cases stepped
        obtain ⟨done', brings, executes⟩ := (fed.next read).executes owned now
        obtain ⟨server, dead⟩ := Handlers.server_of_apply applied
        refine ⟨done', stop, ?_, ?_, ?_, fun alive => ?_⟩
        · simpa [Cluster.setNode, setKv] using brings.evolve evolution
        · simpa [Cluster.setNode, setKv] using fed.length
        · simpa [Cluster.setNode, setKv] using fed.reached
        · rw [setKv_kv_self] at alive ⊢
          rw [server]
          exact (executes _ (fed.holds (dead ▸ alive))).1
      · refine unread (fun now same => ?_) (by simp)
        cases same
        exact here rfl
  | @drain j msg cluster dead read stepped =>
      by_cases here : i = j
      · subst here
        cases stepped
        obtain ⟨done', brings, -⟩ := (fed.next read).executes owned 0
        refine ⟨done', stop, ?_, ?_, ?_, fun alive => ?_⟩
        · simpa [Cluster.setNode] using brings.evolve evolution
        · simpa [Cluster.setNode] using fed.length
        · simpa [Cluster.setNode] using fed.reached
        · rw [dead] at alive
          cases alive
      · refine unread (by simp) fun same => ?_
        cases same
        exact here rfl
  | _ => exact unread (by simp) (by simp)

/-! ## All invariants -/

/-- The entry is at its place in the committed log. -/
def Committed (m : Membership) (s : System) (ack : Int → Nat → Nat) (entry : LogEntry) : Prop :=
  ∃ front, s.Settled m ack (front ++ [entry])

/-- What reliable steps preserve. -/
structure Serving (m : Membership) (threshold : Int) (codec : CommandCodec) (s : System)
    (ack : Int → Nat → Nat) : Prop where
  compacting : Compacting m threshold s.cluster ack
  depicts : Depicts (Image codec) s.cluster
  owned : Owned codec s
  fed : ∀ i, s.Fed m codec ack i
  pending : ∀ {i index data}, s.pending i = some (index, data) →
    ∃ log, s.Settled m ack log ∧ log.length = index ∧ Image codec data log
  answering : ∀ i, Handlers.Answering (fun _ => True) (s.Right m codec ack) (s.kv i)
  given : ∀ {i number index}, (number, index) ∈ (s.kv i).entries →
    ∃ entry, s.entry ⟨i, number⟩ = some entry ∧ entry.index = index
  confirmed : ∀ {i number}, ((s.kv i).call number).Confirmed →
    ∃ entry, s.entry ⟨i, number⟩ = some entry ∧ s.Committed m ack entry

namespace Serving

theorem initial (fits : m.Fits) (codec : CommandCodec) (threshold maxPending : Int) :
    Serving m threshold codec (init m threshold maxPending) fun _ _ => 0 where
  compacting := .initial fits threshold
  depicts := .initial m threshold
  owned := .initial m codec threshold maxPending
  fed _ := ⟨[], [], .nothing .nil, rfl, le_rfl, fun _ => ⟨rfl, rfl⟩⟩
  pending taken := by cases taken
  answering _ := .initial _ _ _
  given member := by cases member
  confirmed impossible := impossible.elim

theorem safe (serving : Serving m threshold codec s ack) :
    (s.cluster.wholeRegister ack).Safe LogEntry.term (population m) :=
  serving.compacting.founded.safe

/-- A call keeps its entry. -/
theorem entry_mono (owned : Owned codec s) (effect : Effect m codec s a s') {call : CallId}
    (found : s.entry call = some entry) : s'.entry call = some entry := by
  cases records_of_effect effect with
  | keeps _ same => rw [same, found]
  | elects _ same => rw [same, found]
  | writes _ _ phase _ _ _ _ _ same =>
      rw [same, Function.update_of_ne, found]
      rintro rfl
      rw [owned.unentered (.inr phase)] at found
      cases found

/-- What a server is about to hand over is an image of the committed log. -/
theorem pending_of_effect (serving : Serving m threshold codec s ack)
    (reliable : s.Reliable m a) (effect : Effect m codec s a s') {index : Nat} {data : Bytes}
    (taken : s'.pending i = some (index, data)) :
    ∃ log, s.Settled m ack log ∧ log.length = index ∧ Image codec data log := by
  cases effect with
  | @takeSnapshot j now triggered =>
      by_cases here : i = j
      · subst here
        simp only [Function.update_self] at taken
        obtain ⟨lastApplied, dedup, decoded⟩ := (s.kv i).server.takeSnapshot_decodes taken
        have alive : (s.kv i).dead = false := by
          refine reliable.resolve_right fun off => ?_
          rw [Server.takeSnapshot, if_pos off] at taken
          cases taken
        obtain ⟨done, stop, fed⟩ := serving.fed i
        obtain ⟨contents, applied⟩ := fed.holds alive
        exact ⟨done, fed.brings.settled, by rw [lastApplied, applied], _, dedup, decoded, contents⟩
      · simp only [Function.update_of_ne here] at taken
        exact serving.pending taken
  | @snapshot j disk index' data' cluster err taken' stepped =>
      by_cases here : i = j
      · subst here
        simp [setKv] at taken
      · simp only [setKv, Function.update_of_ne here] at taken
        exact serving.pending taken
  | restart => exact reliable.elim
  | _ => exact serving.pending taken

/-- Snapshots stay images of the committed log, wherever they go. -/
theorem depicts_of_effect (serving : Serving m threshold codec s ack)
    (reliable : s.Reliable m a) (effect : Effect m codec s a s') :
    Depicts (Image codec) s'.cluster := by
  cases drives_of_effect reliable effect with
  | stays cluster => exact cluster ▸ serving.depicts
  | steps tidy _ stepped _ hands =>
      refine serving.depicts.step serving.compacting.founded.matched tidy.1.running ?_ stepped
      intro i index data disk isSnapshot committed
      obtain ⟨log, settled, rfl, image⟩ := serving.pending (hands i index data disk isSnapshot)
      rw [← serving.compacting.eq_take settled committed]
      exact image

theorem given_of_effect (serving : Serving m threshold codec s ack) (reliable : s.Reliable m a)
    (effect : Effect m codec s a s') {number index : Nat}
    (given : (number, index) ∈ (s'.kv i).entries) :
    ∃ entry, s'.entry ⟨i, number⟩ = some entry ∧ entry.index = index := by
  have old : (number, index) ∈ (s.kv i).entries →
      ∃ entry, s'.entry ⟨i, number⟩ = some entry ∧ entry.index = index := by
    intro member
    obtain ⟨entry, found, same⟩ := serving.given member
    exact ⟨entry, entry_mono serving.owned effect found, same⟩
  cases serves_of_effect reliable.running effect i with
  | stays kv => exact old (kv ▸ given)
  | refuses _ kv => exact old (by rw [kv] at given; exact given)
  | settles kv => exact old (by rw [kv] at given; exact given)
  | steps stepped result _ _ _ _ appended =>
      rw [result] at given
      rcases Handlers.entries_of_step stepped given with member | isAppend
      · exact old member
      · exact appended _ _ isAppend

/-- `ReplicateCommand` confirms entries of the committed log. -/
theorem committed_of_poll (serving : Serving m threshold codec s ack) {call : CallId}
    (reliable : s.Reliable m (.poll call)) (effect : Effect m codec s (.poll call) s') :
    ∃ entry, s.entry call = some entry ∧ s.Committed m ack entry := by
  cases effect with
  | @poll _ entry cluster kv waiting stepped =>
      have inLog := reliable entry waiting
      have reached : entry.index ≤ (s.cluster.node call.node).commitIndex := by
        simp only [Cluster.step] at stepped
        split at stepped
        next enabled => exact enabled.2
        · cases stepped
      have inBook := (serving.owned.written waiting).2.2
      have index := serving.owned.aligned _ _ _ inBook
      refine ⟨entry, waiting, (s.cluster.whole call.node).take (entry.index - 1), ?_⟩
      have whole : (s.cluster.whole call.node).take (entry.index - 1) ++ [entry] =
          (s.cluster.whole call.node).take entry.index := by
        rw [show entry.index = entry.index - 1 + 1 by omega, List.take_add_one,
          Nat.add_sub_cancel, inLog]
        rfl
      rw [whole]
      exact (serving.compacting.take_settled call.node).of_isPrefix
        (List.take_prefix_take_left reached)

theorem confirmed_of_effect (serving : Serving m threshold codec s ack)
    (reliable : s.Reliable m a) (effect : Effect m codec s a s')
    (evolution : (s.cluster.wholeRegister ack).Evolves (s'.cluster.wholeRegister ack'))
    {number : Nat} (confirmed : ((s'.kv i).call number).Confirmed) :
    ∃ entry, s'.entry ⟨i, number⟩ = some entry ∧ s'.Committed m ack' entry := by
  have keep : (∃ entry, s.entry ⟨i, number⟩ = some entry ∧ s.Committed m ack entry) →
      ∃ entry, s'.entry ⟨i, number⟩ = some entry ∧ s'.Committed m ack' entry := by
    rintro ⟨entry, found, front, settled⟩
    exact ⟨entry, entry_mono serving.owned effect found, front, settled.evolve evolution⟩
  cases serves_of_effect reliable.running effect i with
  | stays kv => exact keep (serving.confirmed (kv ▸ confirmed))
  | @refuses other _ kv =>
      rw [kv] at confirmed
      by_cases own : number = other
      · subst own
        rw [Handlers.setCall_self] at confirmed
        cases confirmed
      · rw [Handlers.setCall_of_ne _ _ own] at confirmed
        exact keep (serving.confirmed confirmed)
  | settles kv =>
      rw [kv] at confirmed
      exact keep (serving.confirmed confirmed)
  | steps stepped result anonymous _ replicated =>
      rw [result] at confirmed
      rcases (Handlers.moves_of_step anonymous stepped number).confirmed confirmed with
        old | isPoll
      · exact keep (serving.confirmed old)
      · obtain rfl := replicated number isPoll
        exact keep (serving.committed_of_poll reliable effect)

theorem answering_of_effect (serving : Serving m threshold codec s ack)
    (reliable : s.Reliable m a) (effect : Effect m codec s a s')
    (evolution : (s.cluster.wholeRegister ack).Evolves (s'.cluster.wholeRegister ack'))
    (i : Int) : Handlers.Answering (fun _ => True) (s'.Right m codec ack') (s'.kv i) := by
  have answering := (serving.answering i).mono fun _ _ right => right.evolve evolution
  cases serves_of_effect reliable.running effect i with
  | stays kv =>
      rw [kv]
      exact answering
  | refuses _ kv =>
      rw [kv]
      exact answering.fail _ _
  | settles kv =>
      rw [kv]
      exact answering.withServer _
  | steps stepped result anonymous _ _ applied =>
      rw [result]
      refine answering.step (fun call _ => anonymous.anonymousCall call) ?_ stepped
      rintro msg now isApply alive index result notified
      obtain ⟨-, read⟩ := applied msg now isApply
      obtain ⟨done, stop, fed⟩ := serving.fed i
      obtain ⟨done', -, executes⟩ := (fed.next read).executes serving.owned now
      exact ((executes _ (fed.holds alive)).2 index result notified).evolve evolution

theorem step (serving : Serving m threshold codec s ack) (reliable : s.Reliable m a)
    (stepped : s.step m codec a = some s') :
    ∃ ack', Serving m threshold codec s' ack' ∧
      (s.cluster.wholeRegister ack).Evolves (s'.cluster.wholeRegister ack') := by
  have effect := effect_of_step stepped
  obtain ⟨ack', compacting', evolution⟩ :=
    compacting_of_effect serving.compacting reliable effect
  refine ⟨ack', ⟨compacting', serving.depicts_of_effect reliable effect, ?_, fun i => ?_, ?_,
    serving.answering_of_effect reliable effect evolution,
    serving.given_of_effect reliable effect,
    serving.confirmed_of_effect reliable effect evolution⟩, evolution⟩
  · exact serving.owned.step serving.compacting.founded.matched reliable effect evolution.ledger
  · exact (serving.fed i).step serving.compacting serving.depicts serving.owned reliable effect
      evolution
  · intro i index data taken
    obtain ⟨log, settled, image⟩ := serving.pending_of_effect reliable effect taken
    exact ⟨log, settled.evolve evolution, image⟩

end Serving

/-! ## The theorem -/

theorem serving_of_run (fits : m.Fits) {maxPending : Int}
    (run : Run (step m codec) (Reliable m) (init m threshold maxPending) s) :
    ∃ ack, Serving m threshold codec s ack := by
  apply run.invariant
  · exact ⟨_, .initial fits codec threshold maxPending⟩
  rintro t u a ⟨ack, serving⟩ reliable stepped
  obtain ⟨ack', serving', -⟩ := serving.step reliable stepped
  exact ⟨ack', serving'⟩

/-- Replicas agree: in every run of the service with reliable steps and any snapshot
threshold, whatever the network, the disks and the handlers do, of two servers that have
not been killed the one that is behind holds an earlier version of the map of the other:
the map of the other results from its map by the operations in between, one for each
index, which are those of the committed log.  Servers that have applied the same index
hold the same map, whether they executed the log or were restored from a snapshot. -/
theorem replicas_agree (fits : m.Fits) {maxPending : Int}
    (run : Run (step m codec) (Reliable m) (init m threshold maxPending) s) {j : Int}
    (alive : (s.kv i).dead = false) (alive' : (s.kv j).dead = false)
    (behind : (s.kv i).server.lastApplied ≤ (s.kv j).server.lastApplied) :
    (s.kv j).server.lastApplied ≤ (s.cluster.node j).commitIndex ∧
    ∃ ops : List Op,
      ops = operations codec (((s.cluster.whole j).take (s.kv j).server.lastApplied).drop
        (s.kv i).server.lastApplied) ∧
      ops.length = (s.kv j).server.lastApplied - (s.kv i).server.lastApplied ∧
      (s.kv j).server.state.contents =
        ops.foldl (fun contents op => op.effect contents) (s.kv i).server.state.contents := by
  obtain ⟨ack, serving⟩ := serving_of_run fits run
  obtain ⟨done, stop, fed⟩ := serving.fed i
  obtain ⟨done', stop', fed'⟩ := serving.fed j
  obtain ⟨contents, applied⟩ := fed.holds alive
  obtain ⟨contents', applied'⟩ := fed'.holds alive'
  have settled' := fed'.brings.settled
  obtain ⟨committed, inLog⟩ := fed'.eq_take serving.compacting
  obtain ⟨more, split⟩ := fed.brings.settled.isPrefix settled' serving.safe (by omega)
  -- every entry between the two is an operation
  have decoded : ∀ part, (∀ entry ∈ part, entry ∈ done') →
      (operations codec part).length = part.length := by
    intro part inside
    induction part with
    | nil => rfl
    | cons entry part ih =>
        obtain ⟨call, req, -, -, decodes⟩ :=
          serving.owned.decodes settled' (inside entry List.mem_cons_self)
        have rest := ih fun other member => inside other (List.mem_cons_of_mem _ member)
        simpa [operations, decodes, Except.toOption] using rest
  refine ⟨applied' ▸ committed, operations codec more, ?_, ?_, ?_⟩
  · rw [applied, applied', ← inLog, ← split, List.drop_left]
  · rw [decoded more fun entry member => split ▸ List.mem_append_right _ member, applied, applied',
      ← split, List.length_append]
    omega
  · rw [contents', contents, ← split, replay, replay, operations, List.filterMap_append,
      Sequential.after, Sequential.after, List.foldl_append]
    rfl

/-- An encoder for two commands and the map that the first one leaves. -/
def sampleCodec : CommandCodec where
  unmarshalCommand data :=
    if data = [1] then .ok { op := 2, key := "x", value := "a" }
    else if data = [2] then .ok { op := 1, key := "x", value := "" }
    else .error "unexpected end of JSON input"
  marshalSnapshot payload :=
    if payload = ⟨(∅ : Store).insert "x" "a", ∅⟩ then .ok [3] else .error "unsupported value"
  unmarshalSnapshot data :=
    if data = [3] then .ok ⟨(∅ : Store).insert "x" "a", ∅⟩
    else .error "unexpected end of JSON input"
  roundTrip payload data encoded := by
    split at encoded
    · cases encoded
      simp_all
    · cases encoded
  marshalCommand cmd :=
    if cmd = { op := 2, key := "x", value := "a" } then .ok [1]
    else if cmd = { op := 1, key := "x", value := "" } then .ok [2]
    else .error "unsupported value"
  commandRoundTrip cmd data encoded := by
    split at encoded
    · cases encoded
      simp_all
    · split at encoded
      · cases encoded
        simp_all
      · cases encoded

/-- Node `0` is elected, takes a `Put` and a `Get` at the same time, and has their
entries stored by node `1`. -/
def twoCalls : List SystemAction :=
  election.map .raft ++
    [.request ⟨0, 0⟩ (.put ⟨"x", "a"⟩) 0, .request ⟨0, 1⟩ (.get ⟨"x"⟩) 0,
      .replicate ⟨0, 0⟩ {}, .replicate ⟨0, 1⟩ {}, .raft (.sendAppendEntries 0 1 1 0),
      .raft (.receive (.appendEntries 0 1
        ⟨1, 0, 0, 0, [⟨1, 1, [1]⟩, ⟨2, 1, [2]⟩], 0⟩) {}),
      .raft (.receive (.appendEntriesReply 0 1
        ⟨1, 0, 0, 0, [⟨1, 1, [1]⟩, ⟨2, 1, [2]⟩], 0⟩ ⟨1, true⟩) {})]

/-- The server of node `0` executes both commands and hands over a snapshot after the
first one, which node `2` installs. -/
def restored : List SystemAction :=
  [.raft (.takeEntry 0), .raft (.sendEntry 0), .apply 0 0, .server 0 (.notify []),
    .takeSnapshot 0 0, .snapshot 0 {}, .raft (.takeEntry 0), .raft (.sendEntry 0), .apply 0 0,
    .raft (.heartbeat 0), .raft (.sendAppendEntries 0 2 1 2), .raft (.sendInstallSnapshot 0 2 1),
    .raft (.receive (.installSnapshot 0 2 ⟨1, 0, 1, 1, [3]⟩ [⟨1, 1, [1]⟩]) {}), .apply 2 0]

/-- A replica that was restored from the snapshot of another one agrees with it as far as
the snapshot goes. -/
theorem replicas_agree_restored :
    ∃ s, Run (step threeNodes sampleCodec) (Reliable threeNodes) (init threeNodes 1 0) s ∧
      (s.cluster.node 2).logBase = 1 ∧ (s.kv 2).server.lastApplied = 1 ∧
      (s.kv 0).server.lastApplied = 2 ∧
      2 ≤ (s.cluster.node 0).commitIndex ∧
      ∃ ops : List Op, ops = operations sampleCodec (((s.cluster.whole 0).take 2).drop 1) ∧
        ops.length = 1 ∧ (s.kv 0).server.state.contents =
          ops.foldl (fun contents op => op.effect contents) (s.kv 2).server.state.contents := by
  have reached : ∃ s, Run (step threeNodes sampleCodec) (Reliable threeNodes)
      (init threeNodes 1 0) s ∧ (s.kv 2).dead = false ∧ (s.kv 0).dead = false ∧
      (s.cluster.node 2).logBase = 1 ∧ (s.kv 2).server.lastApplied = 1 ∧
      (s.kv 0).server.lastApplied = 2 :=
    exists_run_of_perform (twoCalls ++ restored) _ (by decide +kernel)
  obtain ⟨s, run, alive, alive', base, first, second⟩ := reached
  have agree := replicas_agree (by decide) run alive alive' (by rw [first, second]; decide)
  rw [first, second] at agree
  exact ⟨s, run, base, first, second, agree⟩

end System

end DistribKV
