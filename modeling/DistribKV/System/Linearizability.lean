import DistribKV.System.Replicas

/-!
# Linearizability of the service

Clients see one key-value store that executes their operations one at a time, each
at some moment between its invocation and its response.  The order is the one of the
committed log: an answered call has its entry there, and its answer is the one of a
sequential store at that place.

Responses that report an error other than a missing key leave open whether the
operation has taken effect or will.  A write answered by a server that is being shut
down is reported as done although this server has not executed it; its entry is in
the committed log all the same.
-/

namespace DistribKV

open Consensus KV

/-- What a client may conclude from a response. -/
def Response.answer : Response → Option Reply
  | .get resp =>
      if resp.success then some (.found resp.value)
      else if resp.error = errKeyNotFound then some .missing
      else none
  | .put resp | .append resp => if resp.success then some .done else none

/-- A conclusive response comes from a result, which it reports as the store would. -/
theorem Request.answer_response {r : Raft} {outcome : Except String Result} {req : Request}
    {answer : Reply} (concluded : (req.response r outcome).answer = some answer)
    (clear : outcome ≠ .error errKeyNotFound) :
    ∃ result, outcome = .ok result ∧
      ∀ contents, result = Handlers.shutdownResult ∨ result = req.op.result contents →
        answer = req.op.answer contents := by
  cases outcome with
  | error err =>
      exfalso
      have other : err ≠ errKeyNotFound := fun same => clear (by rw [same])
      cases req with
      | get req =>
          by_cases notLeader : err = errNotLeader
          · simp [response, Response.answer, getResponse, errorGet, wrongLeaderGet, notLeader,
              errKeyNotFound] at concluded
          · simp [response, Response.answer, getResponse, errorGet, notLeader, other] at concluded
      | put req =>
          simp only [response, Response.answer, writeResponse, errorWrite, wrongLeaderWrite]
            at concluded
          split at concluded <;> simp at concluded
      | append req =>
          simp only [response, Response.answer, writeResponse, errorWrite, wrongLeaderWrite]
            at concluded
          split at concluded <;> simp at concluded
  | ok result =>
      refine ⟨result, rfl, fun contents known => ?_⟩
      cases req with
      | get req =>
          simp only [response, Response.answer, getResponse] at concluded
          rcases known with rfl | rfl
          · simp [Handlers.shutdownResult, errShutdown, errKeyNotFound] at concluded
          · simp only [op, GetRequest.op, Op.result, Op.answer] at concluded ⊢
            cases held : contents req.key with
            | none => simpa [held] using concluded.symm
            | some value => simpa [held] using concluded.symm
      | put req =>
          simp only [response, Response.answer, writeResponse, if_true] at concluded
          exact (Option.some.inj concluded).symm
      | append req =>
          simp only [response, Response.answer, writeResponse, if_true] at concluded
          exact (Option.some.inj concluded).symm

/-- Entries of a numbered log are different. -/
theorem Aligned.nodup {base : Nat} {log : List LogEntry} (aligned : Aligned base log) :
    log.Nodup := by
  induction log generalizing base with
  | nil => exact .nil
  | cons entry log ih =>
      obtain ⟨index, rest⟩ := Aligned.cons_iff.mp aligned
      refine List.nodup_cons.mpr ⟨fun member => ?_, ih rest⟩
      obtain ⟨k, found⟩ := List.mem_iff_getElem?.mp member
      have later := rest k entry found
      omega

namespace System

open Cluster

variable {m : Membership} {threshold : Int} {codec : CommandCodec}
variable {s s' : System} {a : SystemAction} {ack : Int → Nat → Nat}
variable {log : List LogEntry} {entry : LogEntry} {call : CallId}

/-- The history as clients see it. -/
def observed (s : System) : List (Occurrence CallId Op Reply) :=
  s.history.map fun event =>
    match event with
    | .invoked call req => .invoked call req.op
    | .responded call resp => .responded call resp.answer

/-! ## The log of the abstract object -/

/-- The entry was made by the call, for the operation. -/
def Enters (codec : CommandCodec) (s : System) (entry : LogEntry) (pair : CallId × Op) : Prop :=
  s.entry pair.1 = some entry ∧ deserializeCommand codec.toJson entry.command = .ok pair.2

/-- A log is written by calls. -/
abbrev EnteredBy (codec : CommandCodec) (s : System) :
    List LogEntry → List (CallId × Op) → Prop :=
  List.Forall₂ (Enters codec s)

/-- Every part of the committed log was written by calls. -/
theorem Owned.exists_calls (owned : Owned codec s) (settled : s.Settled m ack log)
    {part : List LogEntry} (inside : ∀ entry ∈ part, entry ∈ log) :
    ∃ calls, EnteredBy codec s part calls := by
  induction part with
  | nil => exact ⟨[], .nil⟩
  | cons entry part ih =>
      obtain ⟨call, req, found, -, decoded⟩ :=
        owned.decodes settled (inside entry List.mem_cons_self)
      obtain ⟨calls, entered⟩ := ih fun other member => inside other (List.mem_cons_of_mem _ member)
      exact ⟨(call, req.op) :: calls, .cons ⟨found, decoded⟩ entered⟩

/-- Calls that have entries have been invoked with their operations. -/
theorem Owned.invoked_of_entered (owned : Owned codec s) {calls : List (CallId × Op)}
    (entered : EnteredBy codec s log calls) {op : Op} (member : (call, op) ∈ calls) :
    .invoked call op ∈ s.observed := by
  induction entered with
  | nil => cases member
  | @cons entry pair log calls enters _ ih =>
      rcases List.mem_cons.mp member with rfl | later
      · obtain ⟨found, decoded⟩ := enters
        obtain ⟨⟨req, asked, -⟩, -⟩ := owned.written found
        rw [owned.decodes_entry found asked] at decoded
        cases decoded
        exact List.mem_map.mpr ⟨_, owned.invoked.mpr asked, rfl⟩
      · exact ih later

theorem Owned.nodup (owned : Owned codec s) (settled : s.Settled m ack log) :
    log.Nodup := by
  cases log with
  | nil => exact .nil
  | cons entry log =>
      obtain ⟨t, -, inBook⟩ := settled.mem_book List.mem_cons_self
      exact ((owned.aligned t).of_isPrefix inBook).nodup

/-- The entry of a call has its place in the log of calls. -/
theorem Owned.split_of_entered (owned : Owned codec s) {front rest : List LogEntry}
    {calls : List (CallId × Op)} (entered : EnteredBy codec s (front ++ entry :: rest) calls)
    {req : Request} (found : s.entry call = some entry) (asked : s.request call = some req) :
    ∃ before after, calls = before ++ (call, req.op) :: after ∧
      EnteredBy codec s front before := by
  induction front generalizing calls with
  | nil =>
      obtain _ | @⟨_, ⟨other, op⟩, _, after, ⟨made, decoded⟩, _⟩ := entered
      obtain rfl := owned.unique found made
      rw [owned.decodes_entry found asked] at decoded
      cases decoded
      exact ⟨[], after, rfl, .nil⟩
  | cons first front ih =>
      obtain _ | @⟨_, pair, _, calls, enters, later⟩ := entered
      obtain ⟨before, after, rfl, enteredBefore⟩ := ih later
      exact ⟨pair :: before, after, rfl, .cons enters enteredBefore⟩

/-- Different entries were made by different calls. -/
theorem nodup_of_entered {calls : List (CallId × Op)} (entered : EnteredBy codec s log calls)
    (nodup : log.Nodup) : (calls.map Prod.fst).Nodup := by
  have same : (calls.map Prod.fst).map s.entry = log.map some := by
    induction entered with
    | nil => rfl
    | cons enters _ ih => simp [enters.1, ih (List.nodup_cons.mp nodup).2]
  have distinct := nodup.map (Option.some_injective LogEntry)
  rw [← same] at distinct
  exact distinct.of_map

/-- The operations of a log are those of its calls. -/
theorem operations_of_entered {calls : List (CallId × Op)}
    (entered : EnteredBy codec s log calls) : operations codec log = calls.map Prod.snd := by
  induction entered with
  | nil => rfl
  | @cons entry pair log calls enters _ ih =>
      simp [operations, enters.2, Except.toOption] at ih ⊢
      exact ih

theorem EnteredBy.mono {calls : List (CallId × Op)} (entered : EnteredBy codec s log calls)
    (kept : ∀ {call entry}, s.entry call = some entry → s'.entry call = some entry) :
    EnteredBy codec s' log calls :=
  entered.imp fun _ _ enters => ⟨kept enters.1, enters.2⟩

/-! ## The simulation -/

/-- The service stands where the object with a log stands. -/
structure SimulatesBy (m : Membership) (threshold : Int) (codec : CommandCodec) (s : System)
    (r : Recorder CallId Op Reply) (ack : Int → Nat → Nat) : Prop where
  serving : Serving m threshold codec s ack
  clear : ∀ {i number}, ¬ ((s.kv i).call number).Misleading
  history : r.history = s.observed
  log : ∃ log, s.Settled m ack log ∧ EnteredBy codec s log r.log

/-- The service stands where the object stands, for some acknowledgements. -/
def Simulates (m : Membership) (threshold : Int) (codec : CommandCodec) (s : System)
    (r : Recorder CallId Op Reply) : Prop :=
  ∃ ack, SimulatesBy m threshold codec s r ack

namespace SimulatesBy

variable {r : Recorder CallId Op Reply}

theorem initial (fits : m.Fits) (codec : CommandCodec) (threshold maxPending : Int) :
    SimulatesBy m threshold codec (init m threshold maxPending) {} fun _ _ => 0 where
  serving := .initial fits codec threshold maxPending
  clear := nofun
  history := rfl
  log := ⟨[], .nil, .nil⟩

/-- The log of the object can catch up with the committed log. -/
theorem catchUp (simulates : SimulatesBy m threshold codec s r ack)
    (settled : s.Settled m ack log) :
    ∃ r' log', Recorder.Reaches store r r' ∧ r'.history = r.history ∧
      s.Settled m ack log' ∧ EnteredBy codec s log' r'.log ∧ log <+: log' := by
  obtain ⟨serving, -, history, known, isSettled, entered⟩ := simulates
  rcases settled.comparable isSettled serving.safe with short | ⟨more, rfl⟩
  · exact ⟨r, known, .refl, rfl, isSettled, entered, short⟩
  · have inside : ∀ entry ∈ more, entry ∈ known ++ more := fun _ => List.mem_append_right _
    obtain ⟨calls, added⟩ := serving.owned.exists_calls settled inside
    have all : EnteredBy codec s (known ++ more) (r.log ++ calls) :=
      List.rel_append entered added
    refine ⟨{ r with log := r.log ++ calls }, known ++ more, ?_, rfl, settled, all,
      List.prefix_refl _⟩
    apply Recorder.reaches_enter
    · intro call op member
      rw [history]
      exact serving.owned.invoked_of_entered added member
    · exact nodup_of_entered all (serving.owned.nodup settled)

/-- A conclusive response is the answer of the object. -/
theorem answers (simulates : SimulatesBy m threshold codec s r ack) {req : Request}
    {outcome : Except String Result} {answer : Reply} (asked : s.request call = some req)
    (returned : (s.kv call.node).call call.number = .returned outcome)
    (concluded : (req.response (s.cluster.node call.node) outcome).answer = some answer) :
    ∃ r' log', Recorder.Reaches store r r' ∧
      r'.history = .responded call (some answer) :: r.history ∧
      s.Settled m ack log' ∧ EnteredBy codec s log' r'.log := by
  have serving := simulates.serving
  have clear : outcome ≠ .error errKeyNotFound := by
    rintro rfl
    exact simulates.clear returned
  obtain ⟨result, rfl, reports⟩ := Request.answer_response concluded clear
  -- the call has its entry in the committed log, and so in the log of the object
  obtain ⟨entry, found, front, settled⟩ :=
    serving.confirmed (i := call.node) (by rw [returned]; trivial)
  obtain ⟨r', log', reached, history, settled', entered, rest, rfl⟩ := simulates.catchUp settled
  obtain ⟨before, after, log, enteredBefore⟩ :=
    serving.owned.split_of_entered (by simpa using entered) found asked
  -- the result is the one of the entry
  have right : result = Handlers.shutdownResult ∨ result = req.op.result (replay codec front) := by
    refine ((serving.answering call.node).returned trivial returned).imp_right ?_
    rintro ⟨index, given, front', entry', op, isSettled, place, decoded, rfl⟩
    obtain ⟨other, own, index_eq⟩ := serving.given given
    rw [found] at own
    cases own
    have same : front' ++ [entry'] = front ++ [entry] := by
      have lengths : (front' ++ [entry']).length = (front ++ [entry]).length := by
        have := serving.owned.index_eq settled
        simp only [List.length_append, List.length_singleton]
        omega
      exact (isSettled.isPrefix settled serving.safe lengths.le).eq_of_length lengths
    obtain ⟨rfl, single⟩ := List.append_inj' same rfl
    cases single
    rw [serving.owned.decodes_entry found asked] at decoded
    cases decoded
    rfl
  refine ⟨{ r' with history := .responded call (some answer) :: r'.history }, _,
    reached.tail ?_, by rw [history], settled', entered⟩
  rw [reports _ right, replay, operations_of_entered enteredBefore]
  exact .answer log

/-- Every error of a call is told apart from a missing key. -/
theorem clear_of_effect (simulates : SimulatesBy m threshold codec s r ack)
    (reliable : s.Reliable m a) (effect : Effect m codec s a s') {i : Int} {number : Nat} :
    ¬ ((s'.kv i).call number).Misleading := by
  intro misleading
  apply (simulates.clear : ¬ ((s.kv i).call number).Misleading)
  cases serves_of_effect reliable.running effect i with
  | stays kv => exact kv ▸ misleading
  | @refuses other _ kv =>
      rw [kv] at misleading
      by_cases own : number = other
      · subst own
        rw [Handlers.setCall_self] at misleading
        exact absurd (Except.error.inj (Phase.returned.inj misleading)) (by decide)
      · rwa [Handlers.setCall_of_ne _ _ own] at misleading
  | settles kv =>
      rw [kv] at misleading
      exact misleading
  | steps stepped result anonymous =>
      exact (Handlers.moves_of_step anonymous stepped number).misleading (result ▸ misleading)

theorem step (simulates : SimulatesBy m threshold codec s r ack) (reliable : s.Reliable m a)
    (stepped : s.step m codec a = some s') :
    ∃ r', Recorder.Reaches store r r' ∧ Simulates m threshold codec s' r' := by
  have serving := simulates.serving
  have effect := effect_of_step stepped
  obtain ⟨ack', serving', evolution⟩ := serving.step reliable stepped
  -- a log that is committed stays committed, with the same calls
  have carry : ∀ {r' : Recorder CallId Op Reply}, Recorder.Reaches store r r' →
      r'.history = s'.observed →
      (∃ log, s.Settled m ack log ∧ EnteredBy codec s log r'.log) →
      ∃ r', Recorder.Reaches store r r' ∧ Simulates m threshold codec s' r' := by
    rintro r' reached history ⟨log, settled, entered⟩
    exact ⟨r', reached, ack', serving', simulates.clear_of_effect reliable effect,
      history, log, settled.evolve evolution,
      entered.mono (Serving.entry_mono serving.owned effect)⟩
  have asks : ∀ {call : CallId} {req : Request}, s.request call = none →
      s'.observed = .invoked call req.op :: s.observed →
      ∃ r', Recorder.Reaches store r r' ∧ Simulates m threshold codec s' r' := by
    intro call req fresh observed
    have isNew : ∀ op, .invoked call op ∉ r.history := ?_
    · exact carry (.single (.invoke isNew)) (by rw [observed, simulates.history]) simulates.log
    intro op invoked
    rw [simulates.history] at invoked
    obtain ⟨event, member, shown⟩ := List.mem_map.mp invoked
    cases event with
    | invoked other req' =>
        cases shown
        rw [serving.owned.invoked.mp member] at fresh
        cases fresh
    | responded => cases shown
  cases effect with
  | refuse fresh => exact asks fresh rfl
  | request fresh => exact asks fresh rfl
  | @respond call req outcome asked returned =>
      cases concluded : (req.response (s.cluster.node call.node) outcome).answer with
      | none =>
          have failed : Recorder.Step store r
            { r with history := .responded call none :: r.history } := .fail
          refine carry (.single failed) ?_ simulates.log
          simp [observed, concluded, simulates.history]
      | some answer =>
          obtain ⟨r', log', reached, history, settled, entered⟩ :=
            simulates.answers asked returned concluded
          refine carry reached ?_ ⟨log', settled, entered⟩
          simp [observed, concluded, history, simulates.history]
  | _ => exact carry .refl simulates.history simulates.log

end SimulatesBy

/-! ## The theorem -/

theorem simulates_of_run (fits : m.Fits) {maxPending : Int}
    (run : Run (step m codec) (Reliable m) (init m threshold maxPending) s) :
    ∃ r, Simulates m threshold codec s r ∧ Linearization store r.history r.log := by
  have initial : Simulates m threshold codec (init m threshold maxPending) {} :=
    ⟨_, .initial fits codec threshold maxPending⟩
  refine linearization_of_simulation run initial ?_
  rintro t u a r ⟨ack, simulates⟩ reliable stepped
  exact simulates.step reliable stepped

/-- The service is linearizable: in every run with reliable steps and any snapshot
threshold, whatever the network and the disks do, in whatever order calls arrive, time
out and are answered, whichever nodes fold their logs and install snapshots, and
whichever servers are shut down, there is one order of the calls in which a sequential
key-value store gives the answers that clients got, and in which no call comes before one
that was answered before its invocation. -/
theorem linearizable (fits : m.Fits) {maxPending : Int}
    (run : Run (step m codec) (Reliable m) (init m threshold maxPending) s) :
    Linearizable store s.observed := by
  obtain ⟨r, ⟨ack, simulates⟩, linearization⟩ := simulates_of_run fits run
  exact ⟨r.log, simulates.history ▸ linearization⟩

/-- The two calls are polled by their handlers and answered, the `Get` first.  Between
the two entries node `0` folds the first one. -/
def bothAnswered : List SystemAction :=
  [.poll ⟨0, 0⟩, .server 0 (.register 0), .poll ⟨0, 1⟩, .server 0 (.register 1),
    .raft (.takeEntry 0), .raft (.sendEntry 0), .apply 0 0, .server 0 (.notify []),
    .server 0 .send, .takeSnapshot 0 0, .snapshot 0 {}, .raft (.takeEntry 0),
    .raft (.sendEntry 0), .apply 0 0, .server 0 (.notify []), .server 0 .send,
    .server 0 (.receive 1), .server 0 (.receive 0), .respond ⟨0, 1⟩, .respond ⟨0, 0⟩]

/-- Node `2` installs the snapshot of node `0`, and node `1` learns what is committed. -/
def caughtUp : List SystemAction :=
  [.raft (.heartbeat 0), .raft (.sendAppendEntries 0 2 1 2), .raft (.sendInstallSnapshot 0 2 1),
    .raft (.receive (.installSnapshot 0 2 ⟨1, 0, 1, 1, [3]⟩ [⟨1, 1, [1]⟩]) {}), .apply 2 0,
    .raft (.sendAppendEntries 0 1 1 2),
    .raft (.receive (.appendEntries 0 1 ⟨1, 0, 2, 1, [], 2⟩) {})]

/-- Node `1` is elected by node `2`, commits a `Get` with node `0`, and answers it. -/
def takeover : List SystemAction :=
  [.raft (.electionTimeout 1 {}), .raft (.campaign 1 2), .raft (.sendRequestVote 1 2 2),
    .raft (.receive (.requestVote 1 2 ⟨2, 1, 2, 1⟩) {}),
    .raft (.receive (.requestVoteReply 1 2 2 ⟨2, true⟩) {}), .raft (.becomeLeader 1 2),
    .request ⟨1, 0⟩ (.get ⟨"x"⟩) 0, .replicate ⟨1, 0⟩ {}, .raft (.sendAppendEntries 1 0 2 2),
    .raft (.receive (.appendEntries 1 0 ⟨2, 1, 2, 1, [⟨3, 2, [2]⟩], 2⟩) {}),
    .raft (.receive (.appendEntriesReply 1 0 ⟨2, 1, 2, 1, [⟨3, 2, [2]⟩], 2⟩ ⟨2, true⟩) {}),
    .poll ⟨1, 0⟩, .server 1 (.register 0), .raft (.takeEntry 1), .raft (.sendEntry 1), .apply 1 0,
    .server 1 (.notify []), .takeSnapshot 1 0, .snapshot 1 {}, .raft (.takeEntry 1),
    .raft (.sendEntry 1), .apply 1 0, .server 1 (.notify []), .takeSnapshot 1 0, .snapshot 1 {},
    .raft (.takeEntry 1), .raft (.sendEntry 1), .apply 1 0, .server 1 (.notify []),
    .server 1 .send, .server 1 (.receive 0), .respond ⟨1, 0⟩]

/-- Two overlapping calls of which the second is answered first, a log that is folded, and
a third call at a leader elected by a node that was restored from a snapshot. -/
theorem linearizable_takeover :
    ∃ s, Run (step threeNodes sampleCodec) (Reliable threeNodes) (init threeNodes 1 0) s ∧
      (s.cluster.node 2).logBase = 1 ∧ (s.cluster.node 1).currentTerm = 2 ∧
      s.observed = [.responded ⟨1, 0⟩ (some (.found "a")), .invoked ⟨1, 0⟩ (GetRequest.op ⟨"x"⟩),
        .responded ⟨0, 0⟩ (some .done), .responded ⟨0, 1⟩ (some (.found "a")),
        .invoked ⟨0, 1⟩ (GetRequest.op ⟨"x"⟩), .invoked ⟨0, 0⟩ (PutRequest.op ⟨"x", "a"⟩)] ∧
      Linearizable store s.observed := by
  have reached : ∃ s, Run (step threeNodes sampleCodec) (Reliable threeNodes)
      (init threeNodes 1 0) s ∧
      (s.cluster.node 2).logBase = 1 ∧ (s.cluster.node 1).currentTerm = 2 ∧
      s.observed = [.responded ⟨1, 0⟩ (some (.found "a")), .invoked ⟨1, 0⟩ (GetRequest.op ⟨"x"⟩),
        .responded ⟨0, 0⟩ (some .done), .responded ⟨0, 1⟩ (some (.found "a")),
        .invoked ⟨0, 1⟩ (GetRequest.op ⟨"x"⟩), .invoked ⟨0, 0⟩ (PutRequest.op ⟨"x", "a"⟩)] :=
    exists_run_of_perform (twoCalls ++ bothAnswered ++ caughtUp ++ takeover) _
      (by decide +kernel)
  obtain ⟨s, run, base, term, observed⟩ := reached
  exact ⟨s, run, base, term, observed, linearizable (by decide) run⟩

end System

end DistribKV
