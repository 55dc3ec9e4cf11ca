import DistribKV.KV.Server
import DistribKV.Raft.Replication
import DistribKV.Consensus.Runs

/-!
# Handlers waiting for a result

`submitOperation` of `kv/server.go` and `notifyWaiter` of `kv/apply.go`: a handler
gives its command to the node, registers a channel under the index of the command,
and waits for the apply loop to send the result there.  A result without a waiter is
kept in `recent` for a handler that registers late.

Any number of handlers run concurrently with the apply loop, timers and `Kill`.  A
step is one critical section or one channel operation; what the node answers and
delivers, the clock and the order in which a map is walked are inputs of the steps.
A handler takes its own key out of `pendingOps` on a timeout only; the apply loop
takes it out before it sends, and `Kill` takes out all of them.
-/

/-- What is left after a key has been erased. -/
theorem Finmap.lookup_of_lookup_erase {κ α : Type} [DecidableEq κ]
    {m : Finmap fun _ : κ => α} {erased key : κ} {value : α}
    (found : (m.erase erased).lookup key = some value) :
    key ≠ erased ∧ m.lookup key = some value := by
  by_cases same : key = erased
  · rw [same, Finmap.lookup_erase] at found
    cases found
  · rw [Finmap.lookup_erase_ne same] at found
    exact ⟨same, found⟩

namespace DistribKV.KV

open Consensus

def errNotLeader : String := "not leader"

def errTimeout : String := "timeout waiting for commit"

def errTooManyPending : String := "too many pending operations"

def errShutdown : String := "server shutting down"

def defaultMaxPendingOps : Nat := 1000

/-- The error of `submitOperation` for one of `ReplicateCommand`. -/
def replicateErr : Raft.ReplicateError → String
  | .notLeader => errNotLeader
  | err => err.text

/-- Where a call of `submitOperation` stands. -/
inductive Phase where
  | idle
  /-- About to enter `ReplicateCommand`. -/
  | submitting
  /-- In `ReplicateCommand`, with the command in the log. -/
  | replicating (index : Nat)
  /-- About to lock the server and register. -/
  | registering (index : Nat)
  /-- In the final `select`. -/
  | waiting (index : Nat)
  /-- The timer has fired; about to lock the server. -/
  | timedOut (index : Nat)
  | returned (outcome : Except String Result)
  deriving DecidableEq

/-- The call has registered under an index and not returned. -/
def Phase.RegisteredAt (phase : Phase) (index : Nat) : Prop :=
  phase = .waiting index ∨ phase = .timedOut index

/-- The call has not come to its registration. -/
def Phase.Early : Phase → Prop
  | .idle | .submitting | .replicating _ | .registering _ => True
  | _ => False

theorem Phase.RegisteredAt.index_eq {phase : Phase} {index other : Nat}
    (here : phase.RegisteredAt index) (there : phase.RegisteredAt other) : index = other := by
  rcases here with rfl | rfl <;> rcases there with same | same <;> cases same <;> rfl

theorem Phase.RegisteredAt.not_early {phase : Phase} {index : Nat}
    (registered : phase.RegisteredAt index) : ¬ phase.Early := by
  rcases registered with rfl | rfl <;> exact id

/-- Where the apply loop stands. -/
inductive Loop where
  | idle
  /-- About to lock the server in `notifyWaiter`. -/
  | notifying (index : Nat) (result : Result)
  /-- About to send a result to a call. -/
  | sending (call : Nat) (result : Result)
  deriving DecidableEq

/-- The server with its handlers.  A waiter in `pendingOps` is the call whose channel
it holds, and `resultCh` is the content of that channel, which has room for one
result.  History variables are `entries` (the index given to each call), `passed`
(the calls past the checks of the registration), `applied`, and `expired` (the calls
whose timers fired before their entries were applied). -/
structure Handlers where
  server : Server := {}
  pendingOps : Finmap fun _ : Nat => Nat := ∅
  recent : Finmap fun _ : Nat => Result := ∅
  maxPending : Nat
  dead : Bool := false
  call : Nat → Phase := fun _ => .idle
  resultCh : Nat → Option Result := fun _ => none
  loop : Loop := .idle
  entries : List (Nat × Nat) := []
  passed : List Nat := []
  applied : List (Nat × Result) := []
  expired : List Nat := []

/-- One atomic step. -/
inductive HandlerAction where
  /-- `submitOperation` up to `ReplicateCommand`.  The second input is the error of
  the encoder, if any. -/
  | submit (call : Nat) (op : Op) (encodeErr : Option String) (now : Int)
  /-- `ReplicateCommand` appends the command. -/
  | append (call index : Nat)
  | replicated (call : Nat)
  | replicateFailed (call : Nat) (err : Raft.ReplicateError)
  | register (call : Nat)
  | receive (call : Nat)
  | timeout (call : Nat)
  | cleanup (call : Nat)
  | shutdown (call : Nat)
  /-- `processApplyMsg` up to `notifyWaiter`. -/
  | apply (msg : ApplyMsg) (now : Moment)
  /-- The critical section of `notifyWaiter`, with the keys it evicts. -/
  | notify (evicted : List Nat)
  | send
  | kill
  deriving DecidableEq

/-- A condition on actions is decided by deciding it for every kind of action, and of
message applied. -/
@[reducible] def HandlerAction.decidable (P : HandlerAction → Prop)
    [∀ call op encodeErr now, Decidable (P (.submit call op encodeErr now))]
    [∀ call index, Decidable (P (.append call index))]
    [∀ call, Decidable (P (.replicated call))]
    [∀ call err, Decidable (P (.replicateFailed call err))]
    [∀ call, Decidable (P (.register call))] [∀ call, Decidable (P (.receive call))]
    [∀ call, Decidable (P (.timeout call))] [∀ call, Decidable (P (.cleanup call))]
    [∀ call, Decidable (P (.shutdown call))]
    [∀ command index now, Decidable (P (.apply (.command command index) now))]
    [∀ data index term now, Decidable (P (.apply (.snapshot data index term) now))]
    [∀ evicted, Decidable (P (.notify evicted))]
    [Decidable (P .send)] [Decidable (P .kill)] : DecidablePred P
  | .submit _ _ _ _ | .append _ _ | .replicated _ | .replicateFailed _ _ | .register _
  | .receive _ | .timeout _ | .cleanup _ | .shutdown _ | .apply (.command _ _) _
  | .apply (.snapshot _ _ _) _ | .notify _ | .send | .kill => inferInstance

namespace Handlers

def newServer (maxPending : Int) : Handlers where
  maxPending := if maxPending ≤ 0 then defaultMaxPendingOps else maxPending.toNat

def setCall (s : Handlers) (call : Nat) (phase : Phase) : Handlers :=
  { s with call := Function.update s.call call phase }

/-- The check of the cache in `submitOperation`: the cached result, if any. -/
def findDuplicate (server : Server) (op : Op) (now : Int) : Server × Option Result :=
  if op.clientId ≠ 0 ∧ op.sequenceId ≠ 0 then
    let (server, dup) := server.getDuplicateLocked op.clientId op.sequenceId now
    (server, dup.map (·.result))
  else (server, none)

/-- The critical section in which `submitOperation` registers. -/
def register (s : Handlers) (call index : Nat) : Handlers :=
  if s.dead then s.setCall call (.returned (.error errShutdown))
  else if s.pendingOps.keys.card ≥ s.maxPending then
    s.setCall call (.returned (.error errTooManyPending))
  else
    let s := { s with
      pendingOps := s.pendingOps.insert index call
      passed := call :: s.passed }
    match s.recent.lookup index with
    | some res =>
        { s with recent := s.recent.erase index }.setCall call (.returned (.ok res))
    | none => s.setCall call (.waiting index)

/-- The loop that bounds `recent`: it deletes the given keys, which are keys the map
offers; `none` if it would delete others. -/
def evict (maxPending : Nat) (recent : Finmap fun _ : Nat => Result) :
    List Nat → Option (Finmap fun _ : Nat => Result)
  | [] => if recent.keys.card > maxPending then none else some recent
  | idx :: rest =>
      if recent.keys.card > maxPending ∧ idx ∈ recent then
        evict maxPending (recent.erase idx) rest
      else none

/-- The critical section of `notifyWaiter`. -/
def notifyWaiter (s : Handlers) (index : Nat) (result : Result) (evicted : List Nat) :
    Option Handlers :=
  match s.pendingOps.lookup index with
  | some call =>
      some { s with pendingOps := s.pendingOps.erase index, loop := .sending call result }
  | none =>
      match evict s.maxPending (s.recent.insert index result) evicted with
      | none => none
      | some recent => some { s with recent, loop := .idle }

/-- A send that does not block: it is dropped when the channel is full. -/
def offer (resultCh : Nat → Option Result) (call : Nat) (result : Result) :
    Nat → Option Result :=
  Function.update resultCh call (some ((resultCh call).getD result))

/-- The calls that have a waiter in `pendingOps`. -/
def waiters (s : Handlers) : List Nat :=
  (s.pendingOps.keys.sort (· ≤ ·)).filterMap fun index => s.pendingOps.lookup index

/-- The critical section of `Kill`. -/
def kill (s : Handlers) : Handlers :=
  if s.dead then s
  else
    { s with
      dead := true
      resultCh := s.waiters.foldl (fun resultCh call =>
        offer resultCh call { err := some errShutdown }) s.resultCh
      pendingOps := ∅ }

/-- `recent` after a message: a snapshot that can be read clears it. -/
def recentAfter (json : Json) (recent : Finmap fun _ : Nat => Result) :
    ApplyMsg → Finmap fun _ : Nat => Result
  | .snapshot data _ _ =>
      match deserializeSnapshot json data with
      | .error _ => recent
      | .ok _ => ∅
  | .command _ _ => recent

/-- `processApplyMsg` up to `notifyWaiter`.  The snapshot trigger it may end with
touches no handler. -/
def processApplyMsg (json : Json) (s : Handlers) (now : Moment) (msg : ApplyMsg) : Handlers :=
  let processed := s.server.processApplyMsg json now msg
  let s := { s with server := processed.server, recent := recentAfter json s.recent msg }
  match processed.notified with
  | none => s
  | some (index, result) =>
      { s with loop := .notifying index result, applied := (index, result) :: s.applied }

/-- The step function; `none` when the action is not enabled. -/
def step (json : Json) (s : Handlers) : HandlerAction → Option Handlers
  | .submit call op encodeErr now =>
      match s.call call, encodeErr with
      | .idle, some err => some (s.setCall call (.returned (.error ("serialize op: " ++ err))))
      | .idle, none =>
          let (server, cached) := findDuplicate s.server op now
          match cached with
          | some result => some ({ s with server }.setCall call (.returned (.ok result)))
          | none => some ({ s with server }.setCall call .submitting)
      | _, _ => none
  | .append call index =>
      match s.call call with
      | .submitting =>
          some { s.setCall call (.replicating index) with
            entries := (call, index) :: s.entries }
      | _ => none
  | .replicated call =>
      match s.call call with
      | .replicating index => some (s.setCall call (.registering index))
      | _ => none
  | .replicateFailed call err =>
      match s.call call, err with
      | .submitting, .notLeader | .submitting, .persist _ | .replicating _, .timeout =>
          some (s.setCall call (.returned (.error (replicateErr err))))
      | _, _ => none
  | .register call =>
      match s.call call with
      | .registering index => some (s.register call index)
      | _ => none
  | .receive call =>
      match s.call call, s.resultCh call with
      | .waiting _, some result =>
          some { s.setCall call (.returned (.ok result)) with
            resultCh := Function.update s.resultCh call none }
      | _, _ => none
  | .timeout call =>
      match s.call call with
      | .waiting index =>
          some { s.setCall call (.timedOut index) with
            expired := if s.applied.any (·.1 == index) then s.expired else call :: s.expired }
      | _ => none
  | .cleanup call =>
      match s.call call with
      | .timedOut index =>
          some { s.setCall call (.returned (.error errTimeout)) with
            pendingOps := s.pendingOps.erase index }
      | _ => none
  | .shutdown call =>
      match s.call call with
      | .waiting _ =>
          if s.dead then some (s.setCall call (.returned (.error errShutdown))) else none
      | _ => none
  | .apply msg now =>
      match s.loop with
      | .idle => some (s.processApplyMsg json now msg)
      | _ => none
  | .notify evicted =>
      match s.loop with
      | .notifying index result => s.notifyWaiter index result evicted
      | _ => none
  | .send =>
      match s.loop with
      | .sending call result =>
          some { s with resultCh := offer s.resultCh call result, loop := .idle }
      | _ => none
  | .kill => some s.kill

/-! ## What one step does -/

/-- The ways a step can go. -/
inductive Effect (s : Handlers) : HandlerAction → Handlers → Prop where
  /-- A call returns before it enters `ReplicateCommand`. -/
  | answer {call : Nat} {op : Op} {encodeErr : Option String} {now : Int} {server : Server}
      {outcome : Except String Result} (phase : s.call call = .idle) :
      Effect s (.submit call op encodeErr now)
        ({ s with server }.setCall call (.returned outcome))
  | submit {call : Nat} {op : Op} {encodeErr : Option String} {now : Int} {server : Server}
      (phase : s.call call = .idle) :
      Effect s (.submit call op encodeErr now) ({ s with server }.setCall call .submitting)
  | append {call index : Nat} (phase : s.call call = .submitting) :
      Effect s (.append call index)
        { s.setCall call (.replicating index) with entries := (call, index) :: s.entries }
  | replicated {call index : Nat} (phase : s.call call = .replicating index) :
      Effect s (.replicated call) (s.setCall call (.registering index))
  | fail {call : Nat} {err : Raft.ReplicateError}
      (phase : s.call call = .submitting ∨ ∃ index, s.call call = .replicating index) :
      Effect s (.replicateFailed call err)
        (s.setCall call (.returned (.error (replicateErr err))))
  | refuse {call index : Nat} {err : String} (phase : s.call call = .registering index)
      (full : s.dead = true ∧ err = errShutdown ∨
        s.maxPending ≤ s.pendingOps.keys.card ∧ err = errTooManyPending) :
      Effect s (.register call) (s.setCall call (.returned (.error err)))
  | collect {call index : Nat} {res : Result} (phase : s.call call = .registering index)
      (alive : s.dead = false) (room : s.pendingOps.keys.card < s.maxPending)
      (stashed : s.recent.lookup index = some res) :
      Effect s (.register call)
        ({ s with
          pendingOps := s.pendingOps.insert index call
          passed := call :: s.passed
          recent := s.recent.erase index }.setCall call (.returned (.ok res)))
  | wait {call index : Nat} (phase : s.call call = .registering index)
      (alive : s.dead = false) (room : s.pendingOps.keys.card < s.maxPending)
      (nothing : s.recent.lookup index = none) :
      Effect s (.register call)
        ({ s with
          pendingOps := s.pendingOps.insert index call
          passed := call :: s.passed }.setCall call (.waiting index))
  | receive {call index : Nat} {result : Result} (phase : s.call call = .waiting index)
      (sent : s.resultCh call = some result) :
      Effect s (.receive call)
        { s.setCall call (.returned (.ok result)) with
          resultCh := Function.update s.resultCh call none }
  | timeout {call index : Nat} (phase : s.call call = .waiting index) :
      Effect s (.timeout call)
        { s.setCall call (.timedOut index) with
          expired := if s.applied.any (·.1 == index) then s.expired else call :: s.expired }
  | cleanup {call index : Nat} (phase : s.call call = .timedOut index) :
      Effect s (.cleanup call)
        { s.setCall call (.returned (.error errTimeout)) with
          pendingOps := s.pendingOps.erase index }
  | shutdown {call index : Nat} (phase : s.call call = .waiting index)
      (dead : s.dead = true) :
      Effect s (.shutdown call) (s.setCall call (.returned (.error errShutdown)))
  /-- A snapshot, readable or not. -/
  | restore {data : Bytes} {index term : Nat} {now : Moment} {server : Server}
      {recent : Finmap fun _ : Nat => Result} (idle : s.loop = .idle)
      (cleared : recent = s.recent ∨ recent = ∅) :
      Effect s (.apply (.snapshot data index term) now) { s with server, recent }
  | apply {command : Bytes} {index : Nat} {now : Moment} {server : Server} {result : Result}
      (idle : s.loop = .idle) :
      Effect s (.apply (.command command index) now)
        { s with
          server
          loop := .notifying index result
          applied := (index, result) :: s.applied }
  | found {index call : Nat} {result : Result} {evicted : List Nat}
      (loop : s.loop = .notifying index result)
      (waiter : s.pendingOps.lookup index = some call) :
      Effect s (.notify evicted)
        { s with pendingOps := s.pendingOps.erase index, loop := .sending call result }
  | stash {index : Nat} {result : Result} {evicted : List Nat}
      {recent : Finmap fun _ : Nat => Result} (loop : s.loop = .notifying index result)
      (nobody : s.pendingOps.lookup index = none)
      (bounded : evict s.maxPending (s.recent.insert index result) evicted = some recent) :
      Effect s (.notify evicted) { s with recent, loop := .idle }
  | send {call : Nat} {result : Result} (loop : s.loop = .sending call result) :
      Effect s .send { s with resultCh := offer s.resultCh call result, loop := .idle }
  | kill : Effect s .kill s.kill

variable {json : Json} {s s' : Handlers} {a : HandlerAction}

theorem effect_of_submit {call : Nat} {op : Op} {encodeErr : Option String} {now : Int}
    (stepped : s.step json (.submit call op encodeErr now) = some s') :
    Effect s (.submit call op encodeErr now) s' := by
  simp only [step] at stepped
  split at stepped
  next phase =>
    cases stepped
    exact .answer phase
  next phase =>
    split at stepped
    · cases stepped
      exact .answer phase
    · cases stepped
      exact .submit phase
  · cases stepped

theorem effect_of_register {call : Nat} (stepped : s.step json (.register call) = some s') :
    Effect s (.register call) s' := by
  simp only [step] at stepped
  split at stepped
  next index phase =>
    cases stepped
    unfold register
    split
    next dead => exact .refuse phase (.inl ⟨dead, rfl⟩)
    next alive =>
      have alive := Bool.eq_false_of_not_eq_true alive
      split
      next full => exact .refuse phase (.inr ⟨full, rfl⟩)
      next room =>
        have room := Nat.not_le.mp room
        simp only
        split
        next stashed => exact .collect phase alive room stashed
        next nothing => exact .wait phase alive room nothing
  · cases stepped

/-- A command is notified at its own index. -/
theorem notified_of_command (json : Json) (server : Server) (now : Moment) (command : Bytes)
    (index : Nat) :
    ∃ result, (server.processApplyMsg json now (.command command index)).notified =
      some (index, result) := by
  simp only [Server.processApplyMsg]
  split
  · exact ⟨_, rfl⟩
  · split
    · split
      · exact ⟨_, rfl⟩
      · exact ⟨_, rfl⟩
    · exact ⟨_, rfl⟩

theorem effect_of_apply {msg : ApplyMsg} {now : Moment}
    (stepped : s.step json (.apply msg now) = some s') : Effect s (.apply msg now) s' := by
  simp only [step] at stepped
  split at stepped
  next idle =>
    cases stepped
    cases msg with
    | snapshot data index term =>
        refine .restore idle ?_
        simp only [recentAfter]
        split
        · exact .inl rfl
        · exact .inr rfl
    | command command index =>
        obtain ⟨result, notified⟩ := notified_of_command json s.server now command index
        simp only [processApplyMsg, notified, recentAfter]
        exact .apply idle
  · cases stepped

theorem effect_of_notify {evicted : List Nat}
    (stepped : s.step json (.notify evicted) = some s') : Effect s (.notify evicted) s' := by
  simp only [step] at stepped
  split at stepped
  next index result loop =>
    unfold notifyWaiter at stepped
    split at stepped
    next waiter =>
      cases stepped
      exact .found loop waiter
    next nobody =>
      split at stepped
      · cases stepped
      next bounded =>
        cases stepped
        exact .stash loop nobody bounded
  · cases stepped

theorem effect_of_step (stepped : s.step json a = some s') : Effect s a s' := by
  cases a with
  | submit => exact effect_of_submit stepped
  | register => exact effect_of_register stepped
  | apply => exact effect_of_apply stepped
  | notify => exact effect_of_notify stepped
  | append =>
      simp only [step] at stepped
      split at stepped
      next phase =>
        cases stepped
        exact .append phase
      · cases stepped
  | replicated =>
      simp only [step] at stepped
      split at stepped
      next phase =>
        cases stepped
        exact .replicated phase
      · cases stepped
  | replicateFailed =>
      simp only [step] at stepped
      split at stepped
      next phase =>
        cases stepped
        exact .fail (.inl phase)
      next phase =>
        cases stepped
        exact .fail (.inl phase)
      next phase =>
        cases stepped
        exact .fail (.inr ⟨_, phase⟩)
      · cases stepped
  | receive =>
      simp only [step] at stepped
      split at stepped
      next phase sent =>
        cases stepped
        exact .receive phase sent
      · cases stepped
  | timeout =>
      simp only [step] at stepped
      split at stepped
      next phase =>
        cases stepped
        exact .timeout phase
      · cases stepped
  | cleanup =>
      simp only [step] at stepped
      split at stepped
      next phase =>
        cases stepped
        exact .cleanup phase
      · cases stepped
  | shutdown =>
      simp only [step] at stepped
      split at stepped
      next phase =>
        split at stepped
        next dead =>
          cases stepped
          exact .shutdown phase dead
        · cases stepped
      · cases stepped
  | send =>
      simp only [step] at stepped
      split at stepped
      next loop =>
        cases stepped
        exact .send loop
      · cases stepped
  | kill =>
      cases stepped
      exact .kill

@[simp] theorem setCall_self (s : Handlers) (call : Nat) (phase : Phase) :
    (s.setCall call phase).call call = phase := by simp [setCall]

theorem setCall_of_ne (s : Handlers) {call other : Nat} (phase : Phase) (ne : other ≠ call) :
    (s.setCall call phase).call other = s.call other := by simp [setCall, ne]

theorem offer_of_ne {resultCh : Nat → Option Result} {call other : Nat} (result : Result)
    (ne : other ≠ call) : offer resultCh call result other = resultCh other := by
  simp [offer, ne]

theorem mem_waiters {call : Nat} :
    call ∈ s.waiters ↔ ∃ index, s.pendingOps.lookup index = some call := by
  simp only [waiters, List.mem_filterMap, Finset.mem_sort, Finmap.mem_keys]
  constructor
  · rintro ⟨index, -, found⟩
    exact ⟨index, found⟩
  · rintro ⟨index, found⟩
    exact ⟨index, Finmap.mem_of_lookup_eq_some found, found⟩

/-- Keys that are not evicted stay. -/
theorem lookup_evict {maxPending : Nat} {evicted : List Nat} {index : Nat}
    {recent recent' : Finmap fun _ : Nat => Result}
    (bounded : evict maxPending recent evicted = some recent') (spared : index ∉ evicted) :
    recent'.lookup index = recent.lookup index := by
  induction evicted generalizing recent with
  | nil =>
      simp only [evict] at bounded
      split at bounded
      · cases bounded
      · cases bounded
        rfl
  | cons idx rest ih =>
      simp only [evict] at bounded
      rw [List.mem_cons, not_or] at spared
      split at bounded
      · rw [ih bounded spared.2, Finmap.lookup_erase_ne spared.1]
      · cases bounded

/-- Eviction adds nothing. -/
theorem lookup_of_lookup_evict {maxPending : Nat} {evicted : List Nat} {index : Nat}
    {res : Result} {recent recent' : Finmap fun _ : Nat => Result}
    (bounded : evict maxPending recent evicted = some recent')
    (found : recent'.lookup index = some res) : recent.lookup index = some res := by
  induction evicted generalizing recent with
  | nil =>
      simp only [evict] at bounded
      split at bounded
      · cases bounded
      · cases bounded
        exact found
  | cons idx rest ih =>
      simp only [evict] at bounded
      split at bounded
      · exact (Finmap.lookup_of_lookup_erase (ih bounded)).2
      · cases bounded

/-- What is in `recent` after a result has been stashed. -/
theorem lookup_of_stash {maxPending : Nat} {evicted : List Nat} {index other : Nat}
    {result res : Result} {recent recent' : Finmap fun _ : Nat => Result}
    (bounded : evict maxPending (recent.insert index result) evicted = some recent')
    (found : recent'.lookup other = some res) :
    other = index ∧ res = result ∨ recent.lookup other = some res := by
  have held := lookup_of_lookup_evict bounded found
  by_cases same : other = index
  · subst same
    rw [Finmap.lookup_insert] at held
    exact .inl ⟨rfl, (Option.some.inj held).symm⟩
  · rw [Finmap.lookup_insert_of_ne _ same] at held
    exact .inr held

/-- `Kill` sends to waiters only. -/
theorem kill_resultCh {call : Nat} (absent : call ∉ s.waiters) :
    s.kill.resultCh call = s.resultCh call := by
  unfold kill
  split
  · rfl
  simp only
  -- the channels change one by one along the list
  have along : ∀ (calls : List Nat) (resultCh : Nat → Option Result), call ∉ calls →
      calls.foldl (fun resultCh call => offer resultCh call { err := some errShutdown })
        resultCh call = resultCh call := by
    intro calls
    induction calls with
    | nil => exact fun _ _ => rfl
    | cons first rest ih =>
        intro resultCh absent
        rw [List.mem_cons, not_or] at absent
        rw [List.foldl_cons, ih _ absent.2]
        exact offer_of_ne _ absent.1
  exact along _ _ absent

end Handlers

end DistribKV.KV
