import DistribKV.KV.Rpc
import DistribKV.Consensus.Runs

/-!
# The clerk's writes

`Clerk.Do` of `kv/clerk.go`: it sends a write to one server after another until one
of them reports success.  An attempt whose reply is lost or an error may have been
committed all the same, and the next attempt is another command in the log: requests
carry no client id and no sequence number.

One call of `Do` runs against a cluster that is given by its committed log.  A server
that handles a request appends a command to its own log, at some index.  The command
may later be committed, at that index, unless another one is.  Commands of other
clients are committed at any time.  The key-value server applies what is committed.
-/

namespace DistribKV.KV

open Consensus

/-- Retries before the clerk panics. -/
def maxClerkAttempts : Nat := 1000

/-- A client; `serverIds` is parallel to `servers`.  `seqNum` is an `atomic.Int64` in the
source and a natural number here, which makes no difference below `2^63` attempts. -/
structure Clerk where
  servers : List String
  serverIds : List Int
  leaderId : Int := -1
  clientId : Int
  seqNum : Nat := 0
  deriving DecidableEq, Repr

namespace Clerk

def newSequenceNum (ck : Clerk) : Clerk × Int :=
  ({ ck with seqNum := ck.seqNum + 1 }, (ck.seqNum + 1 : Nat))

/-- The server to try next: the cached leader, or one after the other. -/
def pickServer (ck : Clerk) : Nat :=
  let roundRobin := ck.seqNum % ck.servers.length
  if ck.leaderId ≥ 0 then
    match ck.serverIds.findIdx? (· = ck.leaderId) with
    | some i => i
    | none => roundRobin
  else roundRobin

def updateLeader (ck : Clerk) (leaderId : Int) : Clerk :=
  { ck with leaderId := if leaderId ≥ 0 then leaderId else -1 }

end Clerk

/-- The operation that a server makes of the request for a write.  What the clerk
filed under client and sequence number does not get there; other kinds than `Put` and
`Append` have no request. -/
def Op.received (op : Op) : Option Op :=
  match op.kind with
  | .put => some (PutRequest.op ⟨op.key, op.value⟩)
  | .append => some (AppendRequest.op ⟨op.key, op.value⟩)
  | _ => none

/-- Where the call of `Do` stands. -/
inductive Progress where
  | choosing
  | awaiting (serverIdx : Nat)
  | returned
  | panicked
  deriving DecidableEq, Repr

def Progress.awaits : Progress → Bool
  | .awaiting _ => true
  | _ => false

/-- One call of `Do` and the cluster it talks to.  `sent` are the attempts whose
requests went out, `entries` the indices at which servers appended the commands of
attempts, `log` the committed commands with the attempts they come from, `executed`
the operations that the key-value server has executed. -/
structure Session where
  clerk : Clerk
  op : Op
  attempt : Nat := 0
  progress : Progress := .choosing
  sent : List Nat := []
  entries : List (Nat × Nat) := []
  log : List (Option Nat × Bytes) := []
  server : Server := {}
  executed : List (Option Nat × Op) := []

/-- One step of the call or of the cluster. -/
inductive SessionAction where
  /-- `getClient` fails. -/
  | dialFailed
  | send
  /-- A server handles the request of an attempt and appends its command. -/
  | submit (attempt index : Nat)
  /-- A command is committed and applied, of an attempt or of another client. -/
  | commit (origin : Option Nat) (command : Bytes) (now : Moment)
  /-- The request or its reply is lost, or the call times out. -/
  | lost
  /-- The reply to the current attempt arrives, made of what `submitOperation`
  returned on a server. -/
  | answer (r : Raft) (outcome : Except String Result)

namespace Session

/-- A call of `Do`, which files the client's id in its own copy of the operation. -/
def start (clerk : Clerk) (op : Op) : Session where
  clerk := clerk
  op := { op with clientId := clerk.clientId }

/-- The end of a round of the loop that did not return. -/
def retry (s : Session) : Session :=
  { s with
    attempt := s.attempt + 1
    progress := if s.attempt + 1 < maxClerkAttempts then .choosing else .panicked }

/-- What the clerk does with a response. -/
def receive (s : Session) (serverIdx : Nat) (resp : WriteResponse) : Session :=
  if resp.wrongLeader then { s with clerk := s.clerk.updateLeader resp.leaderId }.retry
  else if resp.success = false then s.retry
  else
    { s with
      clerk := { s.clerk with leaderId := s.clerk.serverIds.getD serverIdx (-1) }
      progress := .returned }

/-- The operation that applying a command executes, if it executes one. -/
def executes (json : Json) (server : Server) (now : Moment) (command : Bytes) : Option Op :=
  match deserializeCommand json command with
  | .error _ => none
  | .ok op => if server.Suppresses op now.time then none else some op

/-- The next committed command, applied. -/
def applyNext (json : Json) (s : Session) (origin : Option Nat) (command : Bytes) (now : Moment) :
    Session :=
  { s with
    log := s.log ++ [(origin, command)]
    server := (s.server.processApplyMsg json now (.command command (s.log.length + 1))).server
    executed := s.executed ++
      ((executes json s.server now command).map fun op => (origin, op)).toList }

/-- The step function; `none` when the action is not enabled. -/
def step (json : Json) (serialize : Op → Bytes) (s : Session) : SessionAction → Option Session
  | .dialFailed => if s.progress = .choosing then some s.retry else none
  | .send =>
      if s.progress = .choosing then
        let (clerk, sequenceId) := s.clerk.newSequenceNum
        some { s with
          clerk
          op := { s.op with sequenceId }
          progress := .awaiting s.clerk.pickServer
          sent := s.attempt :: s.sent }
      else none
  | .submit attempt index =>
      if attempt ∈ s.sent ∧ attempt ∉ s.entries.map (·.1) then
        some { s with entries := (attempt, index) :: s.entries }
      else none
  | .commit none command now => some (s.applyNext json none command now)
  | .commit (some attempt) command now =>
      if (attempt, s.log.length + 1) ∈ s.entries ∧ s.op.received.map serialize = some command then
        some (s.applyNext json (some attempt) command now)
      else none
  | .lost =>
      match s.progress with
      | .awaiting _ => some s.retry
      | _ => none
  | .answer r outcome =>
      match s.progress with
      | .awaiting serverIdx =>
          -- a result comes with the index of the command
          if outcome.toBool → ∃ entry ∈ s.entries, entry.1 = s.attempt ∧ entry.2 ≤ s.log.length then
            some (s.receive serverIdx (writeResponse r outcome))
          else none
      | _ => none

/-- The attempts whose commands are committed. -/
def committed (s : Session) : List Nat := s.log.filterMap (·.1)

/-- An attempt that the clerk gives up is not committed, before or after that, and a
success is reported for the command of the attempt and not for another one at its
index. -/
def Steady (s : Session) : SessionAction → Prop
  | .commit (some attempt) _ _ => attempt = s.attempt ∧ s.progress.awaits
  | .lost => s.attempt ∉ s.committed
  | .answer r outcome =>
      if (writeResponse r outcome).success then
        ∀ entry ∈ s.entries, entry.1 = s.attempt →
          (s.log[entry.2 - 1]?).map (·.1) = some (some s.attempt)
      else s.attempt ∉ s.committed
  | _ => True

instance (s : Session) : DecidablePred s.Steady
  | .commit (some attempt) _ _ => inferInstanceAs (Decidable (attempt = s.attempt ∧ _))
  | .lost => inferInstanceAs (Decidable (s.attempt ∉ s.committed))
  | .answer r outcome =>
      inferInstanceAs (Decidable (if (writeResponse r outcome).success then _ else _))
  | .dialFailed | .send | .submit _ _ | .commit none _ _ => .isTrue trivial

/-! ## What applying a command does -/

variable {json : Json}

/-- The map changes by the effect of the operation that is executed. -/
theorem contents_of_executes (server : Server) (now : Moment) (command : Bytes) (index : Nat) :
    Store.contents (server.processApplyMsg json now (.command command index)).server.state =
      (executes json server now command).elim server.state.contents
        fun op => op.effect server.state.contents := by
  unfold executes
  cases decoded : deserializeCommand json command with
  | error err => simp [Server.processApplyMsg, decoded]
  | ok op =>
      rw [Server.processApplyMsg_state decoded]
      simp only
      split
      · rfl
      · exact server.applyCommandLocked_contents op

/-- A server executes every command that it makes of a request. -/
theorem executes_of_received {sent op : Op} (received : sent.received = some op)
    {command : Bytes} (decoded : deserializeCommand json command = .ok op) (server : Server)
    (now : Moment) : executes json server now command = some op := by
  have anonymous : op.clientId = 0 := by
    unfold Op.received at received
    split at received <;> cases received <;> rfl
  have runs : ¬ server.Suppresses op now.time := fun hit => hit.1 anonymous
  simp [executes, decoded, runs]

theorem writeResponse_success (r : Raft) (outcome : Except String Result) :
    (writeResponse r outcome).success = outcome.toBool ∧
      ((writeResponse r outcome).success = true →
        (writeResponse r outcome).wrongLeader = false) := by
  cases outcome with
  | error err =>
      have failed : (errorWrite r err).success = false := by
        unfold errorWrite
        split <;> rfl
      refine ⟨failed, fun success => ?_⟩
      rw [writeResponse, failed] at success
      cases success
  | ok result => exact ⟨rfl, fun _ => rfl⟩

/-! ## Exactly once -/

/-- The call has committed at most the command of its current attempt, and has
committed that when it returns; what the server executed for it are those commands. -/
structure Once (s : Session) (op : Op) : Prop where
  received : s.op.received = some op
  stage : s.committed = [] ∧ s.progress ≠ .returned ∨
    s.committed = [s.attempt] ∧ (s.progress.awaits = true ∨ s.progress = .returned)
  placed : ∀ attempt ∈ s.committed, ∃ index, index ≤ s.log.length ∧ (attempt, index) ∈ s.entries
  single : (s.entries.map (·.1)).Nodup
  own : s.executed.filter (·.1.isSome) = s.committed.map fun attempt => (some attempt, op)
  contents : s.server.state.contents =
    (s.executed.map (·.2)).foldl (fun contents op => op.effect contents) fun _ => none

namespace Once

variable {s s' : Session} {op : Op}

theorem initial {clerk : Clerk} {sent : Op} (received : sent.received = some op) :
    (start clerk sent).Once op where
  received := received
  stage := .inl ⟨rfl, fun returned => nomatch returned⟩
  placed _ member := nomatch member
  single := .nil
  own := rfl
  contents := rfl

/-- A round that ends without a commit of its attempt. -/
theorem retry (once : s.Once op) (fresh : s.committed = []) : s.retry.Once op where
  received := once.received
  stage := by
    refine .inl ⟨fresh, ?_⟩
    simp only [Session.retry]
    split <;> exact fun returned => nomatch returned
  placed := once.placed
  single := once.single
  own := once.own
  contents := once.contents

/-- Nothing is committed while the clerk has no request out. -/
theorem fresh_of_choosing (once : s.Once op) (choosing : s.progress = .choosing) :
    s.committed = [] := by
  rcases once.stage with ⟨fresh, -⟩ | ⟨-, busy⟩
  · exact fresh
  · rw [choosing] at busy
    rcases busy with awaits | returned
    · cases awaits
    · cases returned

theorem fresh_of_notMem (once : s.Once op) (given : s.attempt ∉ s.committed) :
    s.committed = [] := by
  rcases once.stage with ⟨fresh, -⟩ | ⟨own, -⟩
  · exact fresh
  · rw [own] at given
    exact absurd (List.mem_singleton_self _) given

/-- The committed log grows by one command. -/
theorem applyNext (once : s.Once op) {origin : Option Nat} {command : Bytes} (now : Moment)
    (executed : ∀ attempt, origin = some attempt → executes json s.server now command = some op)
    (stage : s.committed ++ origin.toList = [] ∧ s.progress ≠ .returned ∨
      s.committed ++ origin.toList = [s.attempt] ∧
        (s.progress.awaits = true ∨ s.progress = .returned))
    (placed : ∀ attempt, origin = some attempt → (attempt, s.log.length + 1) ∈ s.entries) :
    (s.applyNext json origin command now).Once op := by
  have grown : (s.applyNext json origin command now).committed =
      s.committed ++ origin.toList := by
    simp only [committed, Session.applyNext, List.filterMap_append]
    cases origin <;> rfl
  refine ⟨once.received, ?_, ?_, once.single, ?_, ?_⟩
  · rw [grown]
    exact stage
  · intro attempt member
    rw [grown] at member
    simp only [Session.applyNext, List.length_append, List.length_singleton]
    rcases List.mem_append.mp member with old | new
    · obtain ⟨index, le, entry⟩ := once.placed attempt old
      exact ⟨index, Nat.le_succ_of_le le, entry⟩
    · exact ⟨_, Nat.le_refl _, placed attempt (Option.mem_toList.mp new)⟩
  · rw [grown, List.map_append, ← once.own]
    simp only [Session.applyNext, List.filter_append]
    congr 1
    cases origin with
    | none => cases executes json s.server now command <;> rfl
    | some attempt => rw [executed attempt rfl]; rfl
  · simp only [Session.applyNext]
    rw [contents_of_executes, List.map_append, List.foldl_append, ← once.contents]
    cases executes json s.server now command <;> rfl

/-- The command of the attempt that the clerk waits for is committed: at its own
index, and so for the first time. -/
theorem commit (once : s.Once op) {attempt : Nat} {command : Bytes} (now : Moment)
    (current : attempt = s.attempt) (awaits : s.progress.awaits)
    (entry : (attempt, s.log.length + 1) ∈ s.entries)
    (decoded : deserializeCommand json command = .ok op) :
    (s.applyNext json (some attempt) command now).Once op := by
  subst current
  have fresh : s.committed = [] := by
    refine once.fresh_of_notMem fun member => ?_
    obtain ⟨index, le, placed⟩ := once.placed _ member
    have same := List.inj_on_of_nodup_map once.single placed entry rfl
    simp only [Prod.mk.injEq, true_and] at same
    omega
  refine once.applyNext now (fun _ _ => executes_of_received once.received decoded s.server now)
    (.inr ⟨?_, .inl awaits⟩) ?_
  · rw [fresh]
    rfl
  · rintro _ ⟨⟩
    exact entry

/-- The reply to the current attempt. -/
theorem answer (once : s.Once op) {serverIdx : Nat} {r : Raft} {outcome : Except String Result}
    (result : outcome.toBool →
      ∃ entry ∈ s.entries, entry.1 = s.attempt ∧ entry.2 ≤ s.log.length)
    (steady : s.Steady (.answer r outcome)) :
    (s.receive serverIdx (writeResponse r outcome)).Once op := by
  obtain ⟨success, redirects⟩ := writeResponse_success r outcome
  simp only [Steady] at steady
  unfold receive
  split at steady
  next succeeded =>
    obtain ⟨entry, member, current, -⟩ := result (success ▸ succeeded)
    have held := steady entry member current
    obtain ⟨committed, found, origin⟩ := Option.map_eq_some_iff.mp held
    have inLog : s.attempt ∈ s.committed :=
      List.mem_filterMap.mpr ⟨committed, List.mem_of_getElem? found, origin⟩
    have own : s.committed = [s.attempt] := by
      rcases once.stage with ⟨fresh, -⟩ | ⟨own, -⟩
      · rw [fresh] at inLog
        cases inLog
      · exact own
    simp only [redirects succeeded, succeeded, Bool.false_eq_true, if_false, Bool.true_eq_false]
    exact { once with stage := .inr ⟨own, .inr rfl⟩ }
  next failed =>
    have fresh := once.fresh_of_notMem steady
    rw [if_pos ((Bool.not_eq_true _).mp failed)]
    split
    · have moved : Once
          { s with clerk := s.clerk.updateLeader (writeResponse r outcome).leaderId } op :=
        { once with }
      exact moved.retry fresh
    · exact once.retry fresh

theorem preserved {serialize : Op → Bytes} {a : SessionAction} (once : s.Once op)
    (decoded : deserializeCommand json (serialize op) = .ok op) (steady : s.Steady a)
    (stepped : s.step json serialize a = some s') : s'.Once op := by
  cases a with
  | dialFailed =>
      simp only [step] at stepped
      split at stepped
      next choosing =>
        cases stepped
        exact once.retry (once.fresh_of_choosing choosing)
      · cases stepped
  | send =>
      simp only [step] at stepped
      split at stepped
      next choosing =>
        cases stepped
        have fresh := once.fresh_of_choosing choosing
        exact { once with stage := .inl ⟨fresh, fun returned => nomatch returned⟩ }
      · cases stepped
  | submit attempt index =>
      simp only [step] at stepped
      split at stepped
      next first =>
        cases stepped
        refine { once with placed := ?_, single := List.nodup_cons.mpr ⟨first.2, once.single⟩ }
        intro committed member
        obtain ⟨index, le, entry⟩ := once.placed committed member
        exact ⟨index, le, List.mem_cons_of_mem _ entry⟩
      · cases stepped
  | commit origin command now =>
      cases origin with
      | none =>
          cases stepped
          refine once.applyNext now (fun _ own => nomatch own) ?_ (fun _ own => nomatch own)
          rw [Option.toList_none, List.append_nil]
          exact once.stage
      | some attempt =>
          simp only [step] at stepped
          split at stepped
          next guarded =>
            cases stepped
            obtain ⟨entry, serialized⟩ := guarded
            rw [once.received, Option.map_some, Option.some.injEq] at serialized
            exact once.commit now steady.1 steady.2 entry (serialized ▸ decoded)
          · cases stepped
  | lost =>
      simp only [step] at stepped
      split at stepped
      · cases stepped
        exact once.retry (once.fresh_of_notMem steady)
      · cases stepped
  | answer r outcome =>
      simp only [step] at stepped
      split at stepped
      · split at stepped
        next result =>
          cases stepped
          exact once.answer result steady
        · cases stepped
      · cases stepped

end Once

end Session

/-- A write of a clerk takes effect exactly once: in every run of a `Do` call for a
`Put` or an `Append`, whatever replies are lost or report errors, in which no attempt
that is given up is committed and a success is reported for the attempt's own command,
the server has executed one operation for the call when the call has returned.  The
map is what the executed operations make of the empty one, in order. -/
theorem write_executed_once {json : Json} {serialize : Op → Bytes} {clerk : Clerk}
    {sent op : Op} {s : Session} (received : sent.received = some op)
    (decoded : deserializeCommand json (serialize op) = .ok op)
    (run : Run (Session.step json serialize) Session.Steady (.start clerk sent) s)
    (returned : s.progress = .returned) :
    s.executed.filter (·.1.isSome) = [(some s.attempt, op)] ∧
      s.server.state.contents =
        (s.executed.map (·.2)).foldl (fun contents op => op.effect contents) fun _ => none := by
  have once : s.Once op := by
    apply run.invariant
    · exact .initial received
    · exact fun once steady stepped => once.preserved decoded steady stepped
  refine ⟨?_, once.contents⟩
  rcases once.stage with ⟨-, unfinished⟩ | ⟨own, -⟩
  · exact absurd returned unfinished
  · rw [once.own, own]
    rfl

/-! ### A call that appends `a` under `x` -/

/-- The command that a server makes of the request. -/
def appendRequestX : Bytes :=
  "\x7b\"op\":3,\"key\":\"x\",\"value\":\"a\"\x7d".toUTF8.data.toList

def appendRequestJson : Json :=
  .ofCommands fun data =>
    if data = appendRequestX then .ok { op := 3, key := "x", value := "a" }
    else .error "unexpected end of JSON input"

def sampleClerk : Clerk where
  servers := ["a:1", "b:1"]
  serverIds := [0, 1]
  clientId := 7

/-- A node that has heard of no leader. -/
def sampleNode : Raft := .fresh ⟨0, [1], 0⟩ {}

/-- The first server does not lead and the second request is lost.  The third one is
committed after a command of another client. -/
def redirectedAppend : List SessionAction :=
  [.send, .answer sampleNode (.error errNotLeader), .send, .lost, .send, .submit 2 2,
    .commit none appendRequestX 0, .commit (some 2) appendRequestX 0, .answer sampleNode (.ok {})]

/-- The call has appended once, next to the other client. -/
theorem write_executed_once_redirected :
    ∃ s, Run (Session.step appendRequestJson fun _ => appendRequestX) Session.Steady
        (.start sampleClerk ⟨.append, "x", "a", 0, 0⟩) s ∧
      s.progress = .returned ∧ s.server.state.lookup "x" = some "aa" ∧
      s.executed.filter (·.1.isSome) = [(some 2, ⟨.append, "x", "a", 0, 0⟩)] := by
  obtain ⟨s, run, returned, attempt, value⟩ :
      ∃ s, Run (Session.step appendRequestJson fun _ => appendRequestX) Session.Steady
          (.start sampleClerk ⟨.append, "x", "a", 0, 0⟩) s ∧
        s.progress = .returned ∧ s.attempt = 2 ∧ s.server.state.lookup "x" = some "aa" :=
    exists_run_of_perform redirectedAppend _ (by decide +kernel)
  have once := (write_executed_once rfl (by decide +kernel) run returned).1
  rw [attempt] at once
  exact ⟨s, run, returned, value, once⟩

/-- The first command is committed, but its reply is lost; the clerk tries again. -/
def repeatedAppend : List SessionAction :=
  [.send, .submit 0 1, .commit (some 0) appendRequestX 0, .lost, .send, .submit 1 2,
    .commit (some 1) appendRequestX 0, .answer sampleNode (.ok {})]

/-- One call, and its value stands in the map twice. -/
theorem lost_reply_appends_twice :
    ∃ s, Run (Session.step appendRequestJson fun _ => appendRequestX) (fun _ _ => True)
        (.start sampleClerk ⟨.append, "x", "a", 0, 0⟩) s ∧
      s.progress = .returned ∧ s.server.state.lookup "x" = some "aa" ∧
      s.executed = [(some 0, ⟨.append, "x", "a", 0, 0⟩), (some 1, ⟨.append, "x", "a", 0, 0⟩)] :=
  exists_run_of_perform repeatedAppend _ (by decide +kernel)

end DistribKV.KV
