import DistribKV.Cluster.Origins
import DistribKV.System.Linearizability

/-!
# What a response tells a client

An answered call has been executed, and a server never executes a call twice: its map
comes from a list of different calls, one after the other.

A write that failed may still be executed later if the error is a timeout, a
shutdown, or the one of a full table of waiters.  After every other error, and after
a redirection, the call has left no entry in any log and never will, whatever happens
to the service afterwards: every entry there was made by another call.
-/

namespace DistribKV

open Consensus KV

/-- The errors of `submitOperation` after which the command may be in the log. -/
def KV.openErrors : List String := [errTimeout, errTooManyPending, errShutdown]

/-- The call has failed in a way that leaves no entry. -/
def KV.Phase.Refused (phase : Phase) : Prop :=
  ∃ err, phase = .returned (.error err) ∧ err ∉ openErrors

/-- The response tells that the operation was not taken on: a redirection, or an error
of a write that leaves nothing open. -/
def Response.refused : Response → Bool
  | .get resp => resp.wrongLeader
  | .put resp | .append resp => !resp.success && !openErrors.contains resp.error

theorem Request.refused_response {r : Raft} {outcome : Except String Result} {req : Request}
    (refused : (req.response r outcome).refused = true) :
    ∃ err, outcome = .error err ∧ err ∉ openErrors := by
  have notLeader : errNotLeader ∉ openErrors := by decide
  have write : ∀ resp : WriteResponse, resp = writeResponse r outcome →
      (!resp.success && !openErrors.contains resp.error) = true →
      ∃ err, outcome = .error err ∧ err ∉ openErrors := by
    rintro resp rfl failed
    cases outcome with
    | ok result => simp [writeResponse] at failed
    | error err =>
        refine ⟨err, rfl, ?_⟩
        by_cases redirect : err = errNotLeader
        · exact redirect ▸ notLeader
        · simpa [writeResponse, errorWrite, redirect] using failed
  cases req with
  | get req =>
      cases outcome with
      | ok result =>
          simp only [response, Response.refused, getResponse] at refused
          split at refused <;> exact absurd refused (by simp)
      | error err =>
          refine ⟨err, rfl, ?_⟩
          by_cases redirect : err = errNotLeader
          · exact redirect ▸ notLeader
          · simp [response, Response.refused, getResponse, errorGet, redirect] at refused
  | put req => exact write _ rfl refused
  | append req => exact write _ rfl refused

namespace KV.Handlers

variable {a : HandlerAction} {call : Nat} {before after : Phase}

/-- A call that is about to enter `ReplicateCommand` was so before, or is new. -/
theorem Moves.submitting (moves : Moves a call before after) (phase : after = .submitting) :
    before = .submitting ∨ ∃ op encodeErr now, a = .submit call op encodeErr now := by
  cases moves with
  | stay => exact .inl phase
  | submit action => exact .inr ⟨_, _, _, action⟩
  | _ => cases phase

/-- A call is refused when it is new, or by `ReplicateCommand` before it has made an
entry. -/
theorem Moves.refused (moves : Moves a call before after) (refused : after.Refused) :
    before.Refused ∨ before = .submitting ∨
      ∃ op encodeErr now, a = .submit call op encodeErr now := by
  obtain ⟨err, phase, closed⟩ := refused
  cases moves with
  | stay => exact .inl ⟨err, phase, closed⟩
  | unserializable action => exact .inr (.inr ⟨_, _, _, action⟩)
  | fail early =>
      rcases early with rfl | rfl
      · exact .inr (.inl rfl)
      · cases phase
        exact absurd (by decide) closed
  | refuse full =>
      cases phase
      rcases full with rfl | rfl <;> exact absurd (by decide) closed
  | cleanup =>
      cases phase
      exact absurd (by decide) closed
  | shutdown =>
      cases phase
      exact absurd (by decide) closed
  | _ => cases phase

end KV.Handlers

namespace System

open Cluster

variable {m : Membership} {codec : CommandCodec} {s s' : System} {a : SystemAction}
variable {log : List LogEntry} {call : CallId}

/-! ## Answered calls -/

/-- A call in the log of calls has its entry in the log. -/
theorem exists_entry_of_entered {before after : List (CallId × Op)} {op : Op}
    (entered : EnteredBy codec s log (before ++ (call, op) :: after)) :
    ∃ front entry rest, log = front ++ entry :: rest ∧ s.entry call = some entry := by
  induction before generalizing log with
  | nil =>
      obtain _ | @⟨entry, _, rest, _, enters, -⟩ := entered
      exact ⟨[], entry, rest, rfl, enters.1⟩
  | cons pair before ih =>
      obtain _ | @⟨first, _, log, _, -, later⟩ := entered
      obtain ⟨front, entry, rest, rfl, found⟩ := ih later
      exact ⟨first :: front, entry, rest, rfl, found⟩

/-- Calls take effect once: in every run of the service with reliable steps and any
snapshot threshold, the map of a server that has not been killed is the one of a store
that has executed, one after the other, as many different calls as the index up to which
the server has applied the log, each with the operation it was invoked with; and every
call that a client got an answer for is among them once the server has applied its index,
by executing it or with a snapshot. -/
theorem answered_call_executed_once (fits : m.Fits) {threshold maxPending : Int}
    (run : Run (step m codec) (Reliable m) (init m threshold maxPending) s) {i : Int}
    (alive : (s.kv i).dead = false) :
    ∃ executed : List (CallId × Op),
      executed.length = (s.kv i).server.lastApplied ∧ (executed.map Prod.fst).Nodup ∧
      (∀ call op, (call, op) ∈ executed → .invoked call op ∈ s.observed) ∧
      (s.kv i).server.state.contents = store.after (executed.map Prod.snd) ∧
      ∀ call answer, .responded call (some answer) ∈ s.observed →
        ∃ entry, s.entry call = some entry ∧
          (entry.index ≤ (s.kv i).server.lastApplied → ∃ op, (call, op) ∈ executed) := by
  obtain ⟨r, ⟨ack, simulates⟩, linearization⟩ := simulates_of_run fits run
  have serving := simulates.serving
  have owned := serving.owned
  obtain ⟨done, stop, fed⟩ := serving.fed i
  obtain ⟨contents, lastApplied⟩ := fed.holds alive
  have settled := fed.brings.settled
  obtain ⟨executed, entered⟩ := owned.exists_calls settled fun _ => id
  refine ⟨executed, ?_, nodup_of_entered entered (owned.nodup settled),
    fun call op => owned.invoked_of_entered entered, ?_, fun call answer responded => ?_⟩
  · rw [lastApplied, entered.length_eq]
  · rw [contents, replay, operations_of_entered entered]
  -- the entry of an answered call is settled, so the server meets it at its index
  rw [← simulates.history] at responded
  obtain ⟨before, op, after, inLog, -⟩ := linearization.answered responded
  obtain ⟨log, settledLog, enteredLog⟩ := simulates.log
  rw [inLog] at enteredLog
  obtain ⟨front, entry, rest, rfl, found⟩ := exists_entry_of_entered enteredLog
  refine ⟨entry, found, fun reached => ?_⟩
  have settledEntry : s.Settled m ack (front ++ [entry]) := settledLog.of_isPrefix (by simp)
  have index := owned.index_eq settledEntry
  obtain ⟨later, rfl⟩ := settledEntry.isPrefix settled serving.safe
    (by rw [List.length_append, List.length_singleton]; omega)
  obtain ⟨⟨req, asked, -⟩, -⟩ := owned.written found
  rw [List.append_assoc] at entered
  obtain ⟨_, _, rfl, -⟩ := owned.split_of_entered entered found asked
  exact ⟨req.op, by simp⟩

/-- The answered `Put` is in the map of the server that was restored from a snapshot. -/
theorem answered_call_executed_once_caughtUp :
    ∃ s, Run (step threeNodes sampleCodec) (Reliable threeNodes) (init threeNodes 1 0) s ∧
      .responded ⟨0, 0⟩ (some .done) ∈ s.observed ∧ (s.cluster.node 2).log = [] ∧
      (s.kv 2).server.lastApplied = 1 ∧
      ∃ executed : List (CallId × Op),
        executed.length = (s.kv 2).server.lastApplied ∧ (executed.map Prod.fst).Nodup ∧
        (∀ call op, (call, op) ∈ executed → .invoked call op ∈ s.observed) ∧
        (s.kv 2).server.state.contents = store.after (executed.map Prod.snd) ∧
        ∀ call answer, .responded call (some answer) ∈ s.observed →
          ∃ entry, s.entry call = some entry ∧
            (entry.index ≤ (s.kv 2).server.lastApplied → ∃ op, (call, op) ∈ executed) := by
  have reached : ∃ s, Run (step threeNodes sampleCodec) (Reliable threeNodes)
      (init threeNodes 1 0) s ∧ (s.kv 2).dead = false ∧
      .responded ⟨0, 0⟩ (some .done) ∈ s.observed ∧ (s.cluster.node 2).log = [] ∧
      (s.kv 2).server.lastApplied = 1 :=
    exists_run_of_perform (twoCalls ++ bothAnswered ++ caughtUp) _ (by decide +kernel)
  obtain ⟨s, run, alive, responded, empty, applied⟩ := reached
  exact ⟨s, run, responded, empty, applied, answered_call_executed_once (by decide) run alive⟩

/-! ## Refused calls -/

/-- Where a call stands. -/
def phase (s : System) (call : CallId) : Phase := (s.kv call.node).call call.number

/-- What a step can do to a call. -/
inductive Attends (s s' : System) (call : CallId) : Prop where
  | asks (fresh : s.request call = none) (entry : s'.entry call = s.entry call)
  | enters {index : Nat} (asked : s.request call ≠ none) (before : s.phase call = .submitting)
      (after : s'.phase call = .replicating index)
  | moves (entry : s'.entry call = s.entry call)
      (submitting : s'.phase call = .submitting → s.phase call = .submitting)
      (refused : (s'.phase call).Refused → (s.phase call).Refused ∨ s.phase call = .submitting)

theorem attends_of_serves (serves : Serves codec s a s' call.node)
    (entry : s'.entry call = s.entry call) : Attends s s' call := by
  have stays : s'.phase call = s.phase call → Attends s s' call := by
    intro same
    exact .moves entry (fun submitting => same ▸ submitting) fun refused => .inl (same ▸ refused)
  cases serves with
  | stays kv => exact stays (by rw [phase, kv, phase])
  | @refuses number fresh kv =>
      by_cases own : call.number = number
      · subst own
        exact .asks fresh entry
      · exact stays (by rw [phase, kv, Handlers.setCall_of_ne _ _ own, phase])
  | settles kv => exact stays (by rw [phase, kv, phase])
  | @steps b kv stepped result anonymous submitted =>
      have moves := Handlers.moves_of_step anonymous stepped call.number
      rw [← result] at moves
      by_cases fresh : s.request call = none
      · exact .asks fresh entry
      have known : ¬ ∃ op encodeErr now, b = .submit call.number op encodeErr now := by
        rintro ⟨op, encodeErr, now, isSubmit⟩
        exact fresh (submitted _ _ _ _ isSubmit)
      exact .moves entry (fun submitting => (moves.submitting submitting).resolve_right known)
        fun refused => (moves.refused refused).imp_right fun rest => rest.resolve_right known

/-- Every step of the service does one of these to a call, a restart as well. -/
theorem attends_of_effect (effect : Effect m codec s a s') (call : CallId) :
    Attends s s' call := by
  by_cases running : ∀ j, a ≠ .restart j
  · have serves := serves_of_effect running effect call.node
    cases records_of_effect effect with
    | keeps _ entry => exact attends_of_serves serves (by rw [entry])
    | elects _ entry => exact attends_of_serves serves (by rw [entry])
    | @writes other req new asked _ before after _ _ _ _ entry =>
        by_cases own : call = other
        · subst own
          exact .enters (by rw [asked]; simp) before after
        · exact attends_of_serves serves (by rw [entry, Function.update_of_ne own])
  · simp only [ne_eq, not_forall, not_not] at running
    obtain ⟨j, rfl⟩ := running
    cases effect with
    | restart =>
        -- the calls of the node are gone, and the others go on
        by_cases here : call.node = j
        · have gone : ((s.setKv j (Handlers.newServer (s.kv j).maxPending)).kv
              call.node).call call.number = .idle := by
            rw [here, setKv_kv_self]
            rfl
          refine .moves rfl (fun submitting => ?_) fun refused => ?_
          · exact absurd (gone.symm.trans submitting) (by simp)
          · obtain ⟨err, returned, -⟩ := refused
            exact absurd (gone.symm.trans returned) (by simp)
        · refine attends_of_serves (?_ : Serves codec s (.restart j) _ call.node) rfl
          exact .stays (Function.update_of_ne here _ _)

/-- Calls without an entry. -/
structure Tracked (s : System) : Prop where
  unasked : ∀ {call}, s.request call = none → s.entry call = none
  submitting : ∀ {call}, s.phase call = .submitting → s.entry call = none
  refused : ∀ {call}, (s.phase call).Refused → s.entry call = none

theorem Tracked.step (tracked : Tracked s) (effect : Effect m codec s a s') : Tracked s' where
  unasked {call} unasked := by
    have unasked' : s.request call = none := by
      cases asked : s.request call with
      | none => rfl
      | some req =>
          rw [Owned.request_mono effect asked] at unasked
          cases unasked
    cases attends_of_effect effect call with
    | asks _ entry => rw [entry, tracked.unasked unasked']
    | enters asked => exact absurd unasked' asked
    | moves entry => rw [entry, tracked.unasked unasked']
  submitting {call} phase := by
    cases attends_of_effect effect call with
    | asks fresh entry => rw [entry, tracked.unasked fresh]
    | enters _ _ after =>
        rw [after] at phase
        cases phase
    | moves entry submitting => rw [entry, tracked.submitting (submitting phase)]
  refused {call} refused := by
    cases attends_of_effect effect call with
    | asks fresh entry => rw [entry, tracked.unasked fresh]
    | enters _ _ after =>
        obtain ⟨err, returned, -⟩ := refused
        rw [after] at returned
        cases returned
    | moves entry _ before =>
        rw [entry]
        exact (before refused).elim tracked.refused tracked.submitting

/-- The call has made no entry and will make none. -/
structure Closed (s : System) (call : CallId) : Prop where
  asked : s.request call ≠ none
  entry : s.entry call = none
  phase : s.phase call ≠ .submitting

theorem Closed.step (closed : Closed s call) (effect : Effect m codec s a s') :
    Closed s' call := by
  have asked : s'.request call ≠ none := by
    obtain ⟨req, known⟩ := Option.ne_none_iff_exists'.mp closed.asked
    rw [Owned.request_mono effect known]
    simp
  cases attends_of_effect effect call with
  | asks fresh => exact absurd fresh closed.asked
  | enters _ before => exact absurd before closed.phase
  | moves entry submitting =>
      exact ⟨asked, entry.trans closed.entry, fun phase => closed.phase (submitting phase)⟩

/-- A call that has been refused is closed. -/
def RefusedClosed (s : System) : Prop :=
  ∀ {call resp}, .responded call resp ∈ s.history → resp.refused = true → Closed s call

theorem RefusedClosed.step (closed : RefusedClosed s) (tracked : Tracked s)
    (effect : Effect m codec s a s') : RefusedClosed s' := by
  intro call resp responded refused
  have old : .responded call resp ∈ s.history → Closed s' call := fun known =>
    (closed known refused).step effect
  have invoked : ∀ {other req}, .responded call resp ∈ .invoked other req :: s.history →
      Closed s' call := by
    intro other req member
    exact old ((List.mem_cons.mp member).resolve_left (by simp))
  cases effect with
  | refuse => exact invoked responded
  | request => exact invoked responded
  | @respond other req outcome asked returned =>
      rcases List.mem_cons.mp responded with new | known
      · cases new
        obtain ⟨err, rfl, settled⟩ := Request.refused_response refused
        exact ⟨by rw [asked]; simp, tracked.refused ⟨err, returned, settled⟩,
          fun phase => by rw [System.phase, returned] at phase; cases phase⟩
      · exact old known
  | _ => exact old responded

/-- The entry was made by a call, from the operation it was invoked with. -/
def MadeBy (codec : CommandCodec) (s : System) (entry : LogEntry) (call : CallId) : Prop :=
  s.entry call = some entry ∧
    ∃ req, s.request call = some req ∧ serializeCommand codec req.op = .ok entry.command

/-- A call keeps its entry. -/
theorem MadeBy.step {entry : LogEntry} (made : MadeBy codec s entry call) (tracked : Tracked s)
    (effect : Effect m codec s a s') : MadeBy codec s' entry call := by
  obtain ⟨found, req, asked, serialized⟩ := made
  refine ⟨?_, req, Owned.request_mono effect asked, serialized⟩
  cases records_of_effect effect with
  | keeps _ entry => rw [entry, found]
  | elects _ entry => rw [entry, found]
  | @writes other req new _ _ before _ _ _ _ _ entry =>
      have different : call ≠ other := by
        rintro rfl
        rw [tracked.submitting before] at found
        cases found
      rw [entry, Function.update_of_ne different, found]

/-- Every entry in a log, in memory or on disk, was made by a call. -/
def Attributed (codec : CommandCodec) (s : System) : Prop :=
  s.cluster.Sourced fun entry => ∃ call, MadeBy codec s entry call

theorem Attributed.step (attributed : Attributed codec s) (tracked : Tracked s)
    (effect : Effect m codec s a s') : Attributed codec s' := by
  have older : s.cluster.Sourced fun entry => ∃ call, MadeBy codec s' entry call :=
    attributed.mono fun _ ⟨call, made⟩ => ⟨call, made.step tracked effect⟩
  -- a step of the cluster in which no call makes an entry
  have other : ∀ {b : Action}, s.cluster.step m b = some s'.cluster →
      (∀ i cmd disk, b ≠ .replicate i cmd disk) → Attributed codec s' := by
    intro b stepped isOther
    exact older.step stepped fun i cmd disk _ same => absurd same (isOther i cmd disk)
  cases effect with
  | @replicateFailed call disk data cluster err kv stepped called =>
      refine older.step stepped fun i cmd disk' index same ok => ?_
      cases same
      rw [called] at ok
      cases ok
  | @replicate call disk req data cluster index kv asked serialized stepped called =>
      obtain ⟨-, -, term, -⟩ := ledger_of_replicate stepped called
      refine older.step stepped fun i cmd disk' index' same ok => ⟨call, ?_⟩
      cases same
      rw [called] at ok
      cases ok
      refine ⟨?_, req, asked, serialized⟩
      rw [← term]
      exact Function.update_self _ _ _
  | poll _ stepped => exact other stepped (by simp)
  | giveUp stepped => exact other stepped (by simp)
  | apply _ stepped => exact other stepped (by simp)
  | drain _ _ stepped => exact other stepped (by simp)
  | snapshot _ stepped => exact other stepped (by simp)
  | restart stepped => exact other stepped (by simp)
  | @raft b cluster own stepped =>
      refine other stepped ?_
      rintro i cmd disk rfl
      cases own
  | _ => exact older

/-- A refused call has no effect: in every run of the service, with crashes, restarts,
compaction and failing disks, a call that a client was told is refused was given no entry
and has none in the log of any node, in memory or on disk, at that time or at any later
one.  Every entry there was made by another call, from the operation which that one was
invoked with. -/
theorem refused_call_never_entered {threshold maxPending : Int}
    (run : Run (step m codec) (fun _ _ => True) (init m threshold maxPending) s)
    (later : Run (step m codec) (fun _ _ => True) s s') {resp : Response}
    (responded : .responded call resp ∈ s.history) (refused : resp.refused = true) :
    s'.entry call = none ∧ ∀ i entry, (s'.cluster.node i).Has entry →
      ∃ other ≠ call, MadeBy codec s' entry other := by
  have known : ∀ {t}, Run (step m codec) (fun _ _ => True) (init m threshold maxPending) t →
      Tracked t ∧ Attributed codec t ∧ RefusedClosed t := by
    intro t reached
    apply reached.invariant
    · refine ⟨⟨fun _ => rfl, fun _ => rfl, fun _ => rfl⟩, .initial _ m threshold, ?_⟩
      intro call resp member
      cases member
    intro t u a ⟨tracked, attributed, closed⟩ _ stepped
    have effect := effect_of_step stepped
    exact ⟨tracked.step effect, attributed.step tracked effect, closed.step tracked effect⟩
  have closed : Closed s' call := by
    apply later.invariant
    · exact (known run).2.2 responded refused
    intro t u a closed _ stepped
    exact Closed.step closed (effect_of_step stepped)
  refine ⟨closed.entry, fun i entry has => ?_⟩
  obtain ⟨other, made⟩ := (known (run.trans later)).2.1.logs has
  refine ⟨other, ?_, made⟩
  rintro rfl
  have found := made.1
  rw [closed.entry] at found
  cases found

/-- Node `0` is elected, and its disk fails when a `Put` comes. -/
def failingDisk : List SystemAction :=
  election.map .raft ++
    [.request ⟨0, 0⟩ (.put ⟨"x", "a"⟩) 0, .replicate ⟨0, 0⟩ { save := some "no space" },
      .respond ⟨0, 0⟩]

/-- The `Put` comes again when the disk works, and the node is restarted after that. -/
def goesOn : List SystemAction :=
  [.request ⟨0, 1⟩ (.put ⟨"x", "a"⟩) 0, .replicate ⟨0, 1⟩ {}, .restart 0]

/-- The one entry of the log belongs to the call that came later. -/
theorem refused_call_never_entered_failingDisk :
    ∃ s s' entry, Run (step threeNodes sampleCodec) (fun _ _ => True) (init threeNodes 0 0) s ∧
      Run (step threeNodes sampleCodec) (fun _ _ => True) s s' ∧
      .responded ⟨0, 0⟩ (.put { error := "persist command: no space" }) ∈ s.history ∧
      (s.cluster.node 0).log = [] ∧ (s'.cluster.node 0).log = [entry] ∧
      ∃ other ≠ ⟨0, 0⟩, MadeBy sampleCodec s' entry other := by
  have reached : ∃ s, Run (step threeNodes sampleCodec) (fun _ _ => True)
      (init threeNodes 0 0) s ∧
      .responded ⟨0, 0⟩ (.put { error := "persist command: no space" }) ∈ s.history ∧
      (s.cluster.node 0).log = [] ∧
      (perform (step threeNodes sampleCodec) (fun _ _ => True) s goesOn).any (fun s' =>
        decide ((s'.cluster.node 0).log.length = 1)) = true :=
    exists_run_of_perform failingDisk _ (by decide +kernel)
  obtain ⟨s, run, responded, empty, rest⟩ := reached
  obtain ⟨s', later, one⟩ := exists_run_of_perform goesOn _ rest
  obtain ⟨entry, log⟩ := List.length_eq_one_iff.mp one
  exact ⟨s, s', entry, run, later, responded, empty, log,
    (refused_call_never_entered run later responded (by decide)).2 0 entry
      (.inl (by simp [log]))⟩

end System

end DistribKV
