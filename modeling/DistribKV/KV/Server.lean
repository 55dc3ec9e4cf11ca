import DistribKV.Raft.Types
import Mathlib.Data.Finmap
import Mathlib.Data.Finset.Sort
import Mathlib.Data.Int.Order.Basic

/-!
# The key-value state machine

The apply path of `kv/apply.go` and the snapshot support of `kv/snapshot.go`: a
map from keys to values, the cache of results of recent client operations, and
the counters that decide when a snapshot is taken.

Go maps are finite maps.  Strings are valid UTF-8, because every key and value
comes out of the JSON decoder.  Times are nanoseconds, and the clock is read once
per message.  The order in which `range` goes through a map is not specified; where it
decides something it is an input.  The handlers waiting for a result are not part of
this record.
-/

/-- Change or drop the value of every key. -/
def Finmap.filterMap {κ α β : Type} [DecidableEq κ] (change : κ → α → Option β)
    (m : Finmap fun _ : κ => α) : Finmap fun _ : κ => β :=
  Finmap.keysLookupEquiv.symm
    ⟨(m.keys.filter fun key => ((m.lookup key).bind (change key)).isSome,
      fun key => (m.lookup key).bind (change key)), by
      intro key
      simp only [Finset.mem_filter, Finmap.mem_keys]
      refine ⟨fun kept => ⟨?_, kept⟩, And.right⟩
      cases found : m.lookup key with
      | none => simp [found] at kept
      | some value => exact Finmap.mem_of_lookup_eq_some found⟩

@[simp] theorem Finmap.lookup_filterMap {κ α β : Type} [DecidableEq κ]
    (change : κ → α → Option β) (m : Finmap fun _ : κ => α) (key : κ) :
    (m.filterMap change).lookup key = (m.lookup key).bind (change key) := by
  simp [Finmap.filterMap]

namespace DistribKV.KV

/-! ## Operations -/

/-- `OpKind`, which mirrors an open enumeration on the wire. -/
inductive OpKind where
  | get
  | put
  | append
  | unknown (code : Int)
  deriving DecidableEq, Repr

/-- The conversion `OpKind(cmd.Op)`. -/
def OpKind.ofProto (code : Int) : OpKind :=
  if code = 1 then .get
  else if code = 2 then .put
  else if code = 3 then .append
  else .unknown code

/-- The wire form of an operation, as it stands in the log. -/
structure Command where
  op : Int
  key : String
  value : String := ""
  clientId : Int := 0
  sequenceNum : Int := 0
  deriving DecidableEq, Repr

structure Op where
  kind : OpKind
  key : String
  value : String
  clientId : Int
  sequenceId : Int
  deriving DecidableEq, Repr

def opFromProto (cmd : Command) : Op where
  kind := .ofProto cmd.op
  key := cmd.key
  value := cmd.value
  clientId := cmd.clientId
  sequenceId := cmd.sequenceNum

/-- What the apply loop sends to the handler of an operation.  An error is its
text. -/
structure Result where
  value : String := ""
  err : Option String := none
  deriving DecidableEq, Repr

def errKeyNotFound : String := "key not found"

/-! ## Encodings -/

/-- The cached result of an operation that was applied. -/
structure DuplicateEntry where
  result : Result
  timestamp : Int
  deriving DecidableEq, Repr

/-- The form of a cached result inside a snapshot. -/
structure SnapshotEntry where
  value : String
  err : String
  timestamp : Int
  deriving DecidableEq, Repr

/-- The key-value map. -/
abbrev Store := Finmap fun _ : String => String

/-- The cached results of one client, by sequence number. -/
abbrev ClientMap := Finmap fun _ : Int => DuplicateEntry

structure SnapshotPayload where
  state : Store
  dedup : Finmap fun _ : Int => Finmap fun _ : Int => SnapshotEntry
  deriving DecidableEq

/-- The part of `encoding/json` the server relies on.  What has been encoded
decodes to itself. -/
structure Json where
  unmarshalCommand : Bytes → Except String Command
  marshalSnapshot : SnapshotPayload → Except String Bytes
  unmarshalSnapshot : Bytes → Except String SnapshotPayload
  roundTrip : ∀ payload data, marshalSnapshot payload = .ok data →
    unmarshalSnapshot data = .ok payload

/-- An encoder that knows commands and no snapshots. -/
def Json.ofCommands (unmarshalCommand : Bytes → Except String Command) : Json where
  unmarshalCommand
  marshalSnapshot _ := .error "unsupported value"
  unmarshalSnapshot _ := .error "unexpected end of JSON input"
  roundTrip _ _ encoded := by cases encoded

section Encodings

variable (json : Json)

def deserializeCommand (data : Bytes) : Except String Op :=
  match json.unmarshalCommand data with
  | .error err => .error ("deserialize command: " ++ err)
  | .ok cmd => .ok (opFromProto cmd)

/-- Lifetime of a cached result: ten seconds. -/
def duplicateCacheExpiry : Int := 10 * 1000000000

/-- Cap on the cached results of one client. -/
def maxDuplicateEntriesPerClient : Nat := 100

/-- The test `time.Since(entry.Timestamp) > duplicateCacheExpiry`. -/
def DuplicateEntry.expired (entry : DuplicateEntry) (now : Int) : Bool :=
  decide (now - entry.timestamp > duplicateCacheExpiry)

def errString (err : Option String) : String := err.getD ""

/-- The error a stored text stands for; unknown ones degrade to no error. -/
def sentinelErr (text : String) : Option String :=
  if text = "" then none
  else if text = errKeyNotFound then some errKeyNotFound
  else none

/-- Encode the map and the cached results that are neither expired nor filed
under the no-client sentinel.  A client without any is left out. -/
def serializeSnapshot (state : Store) (dedup : Finmap fun _ : Int => ClientMap)
    (now : Int) : Except String Bytes :=
  let payload : SnapshotPayload := {
    state
    dedup := dedup.filterMap fun clientId clientMap =>
      let kept := clientMap.filterMap fun seqNum entry =>
        if clientId = 0 ∧ seqNum = 0 then none
        else if entry.expired now then none
        else
          some (SnapshotEntry.mk entry.result.value (errString entry.result.err)
            entry.timestamp)
      if kept = ∅ then none else some kept }
  match json.marshalSnapshot payload with
  | .error err => .error ("serialize snapshot: " ++ err)
  | .ok data => .ok data

def deserializeSnapshot (data : Bytes) :
    Except String (Store × Finmap fun _ : Int => ClientMap) :=
  match json.unmarshalSnapshot data with
  | .error err => .error ("deserialize snapshot: " ++ err)
  | .ok payload =>
      .ok (payload.state, payload.dedup.filterMap fun _ clientMap =>
        some (clientMap.filterMap fun _ entry =>
          some ⟨⟨entry.value, sentinelErr entry.err⟩, entry.timestamp⟩))

/-- A snapshot decodes to the map it was made of. -/
theorem deserializeSnapshot_serializeSnapshot {state : Store}
    {dedup : Finmap fun _ : Int => ClientMap} {now : Int} {data : Bytes}
    (serialized : serializeSnapshot json state dedup now = .ok data) :
    ∃ restored, deserializeSnapshot json data = .ok (state, restored) := by
  unfold serializeSnapshot at serialized
  simp only at serialized
  split at serialized
  · cases serialized
  next encoded marshalled =>
    cases serialized
    unfold deserializeSnapshot
    rw [json.roundTrip _ _ marshalled]
    exact ⟨_, rfl⟩

end Encodings

/-! ## The server -/

/-- What a machine adds to a message: the time at which it is processed, and the order in
which `range` goes through the cached results of a client.  Sequence numbers that are
not listed come after the listed ones. -/
structure Moment where
  time : Int
  order : List Int := []
  deriving DecidableEq, Repr

instance {n : Nat} : OfNat Moment n := ⟨{ time := n }⟩

/-- The part of the server that the apply loop works on. -/
structure Server where
  state : Store := ∅
  duplicates : Finmap fun _ : Int => ClientMap := ∅
  lastApplied : Nat := 0
  lastSnapshotIndex : Nat := 0
  deriving DecidableEq

/-- The outcome of one message: the result for the handler waiting at an index,
and whether the snapshot trigger is looked at. -/
structure Processed where
  server : Server
  notified : Option (Nat × Result) := none
  triggers : Bool := false
  deriving DecidableEq

namespace Server

def applyCommandLocked (s : Server) (op : Op) : Server × Result :=
  match op.kind with
  | .put => ({ s with state := s.state.insert op.key op.value }, {})
  | .append =>
      ({ s with
        state := s.state.insert op.key ((s.state.lookup op.key).getD "" ++ op.value) }, {})
  | .get =>
      match s.state.lookup op.key with
      | none => (s, { err := some errKeyNotFound })
      | some val => (s, { value := val })
  | .unknown code => (s, { err := some ("unknown op type: " ++ toString code) })

/-- Look up a cached result; an expired one is dropped. -/
def getDuplicateLocked (s : Server) (clientId seqNum now : Int) :
    Server × Option DuplicateEntry :=
  match s.duplicates.lookup clientId with
  | none => (s, none)
  | some clientMap =>
      match clientMap.lookup seqNum with
      | none => (s, none)
      | some entry =>
          if entry.expired now then
            ({ s with
              duplicates := s.duplicates.insert clientId (clientMap.erase seqNum) }, none)
          else (s, some entry)

def saveDuplicateLocked (s : Server) (clientId seqNum : Int) (result : Result)
    (now : Int) : Server :=
  let clientMap := (s.duplicates.lookup clientId).getD ∅
  { s with
    duplicates := s.duplicates.insert clientId (clientMap.insert seqNum ⟨result, now⟩) }

/-- A step of the search for the oldest entry. -/
def olderOf (clientMap : ClientMap) (oldest : Option Int) (seq : Int) : Option Int :=
  match oldest with
  | none => some seq
  | some best =>
      match clientMap.lookup seq, clientMap.lookup best with
      | some entry, some other =>
          if entry.timestamp < other.timestamp then some seq else some best
      | _, _ => some best

/-- The sequence number of the oldest entry; of several that are equally old, the first
one in the order of the search. -/
def oldestSeq (order : List Int) (clientMap : ClientMap) : Option Int :=
  (order.filter (· ∈ clientMap.keys) ++ clientMap.keys.sort (· ≤ ·)).foldl
    (olderOf clientMap) none

/-- Drop the oldest entry as often as told. -/
def evict (order : List Int) (clientMap : ClientMap) : Nat → ClientMap
  | 0 => clientMap
  | rounds + 1 =>
      match oldestSeq order clientMap with
      | none => clientMap
      | some seq => evict order (clientMap.erase seq) rounds

/-- Drop the expired entries of a client, and then the oldest ones above the cap.
Every round of the second loop drops one entry. -/
def cleanupDuplicateCacheLocked (s : Server) (clientId : Int) (now : Moment) : Server :=
  match s.duplicates.lookup clientId with
  | none => s
  | some clientMap =>
      let live := clientMap.filterMap fun _ entry =>
        if entry.expired now.time then none else some entry
      { s with
        duplicates := s.duplicates.insert clientId
          (evict now.order live (live.keys.card - maxDuplicateEntriesPerClient)) }

/-- Replace map and cache by a snapshot; an unreadable one is ignored. -/
def handleSnapshotMsg (s : Server) (json : Json) (data : Bytes)
    (lastIncludedIndex : Nat) : Server :=
  match deserializeSnapshot json data with
  | .error _ => s
  | .ok (state, dedup) =>
      { s with
        state
        duplicates := dedup
        lastApplied := lastIncludedIndex
        lastSnapshotIndex := lastIncludedIndex }

/-- The normal path of `processApplyMsg`, past the duplicate check. -/
def execute (s : Server) (op : Op) (commandIndex : Nat) (now : Moment) : Processed :=
  let (s, result) := s.applyCommandLocked op
  let s := { s with lastApplied := commandIndex }
  let s := s.saveDuplicateLocked op.clientId op.sequenceId result now.time
  let s := s.cleanupDuplicateCacheLocked op.clientId now
  { server := s, notified := some (commandIndex, result), triggers := true }

/-- `processApplyMsg`, up to the snapshot trigger it ends with. -/
def processApplyMsg (s : Server) (json : Json) (now : Moment) : ApplyMsg → Processed
  | .snapshot data lastIncludedIndex _ =>
      { server := s.handleSnapshotMsg json data lastIncludedIndex }
  | .command command commandIndex =>
      match deserializeCommand json command with
      | .error err => { server := s, notified := some (commandIndex, { err := some err }) }
      | .ok op =>
          if op.clientId ≠ 0 ∧ op.sequenceId ≠ 0 then
            match s.getDuplicateLocked op.clientId op.sequenceId now.time with
            | (s, some dup) => { server := s, notified := some (commandIndex, dup.result) }
            | (s, none) => s.execute op commandIndex now
          else s.execute op commandIndex now

/-- First critical section of `takeSnapshot`: what is handed to `Raft.Snapshot`,
if anything. -/
def takeSnapshot (s : Server) (json : Json) (threshold now : Int) : Option (Nat × Bytes) :=
  if threshold ≤ 0 then none
  else if (s.lastApplied : Int) - s.lastSnapshotIndex < threshold then none
  else
    match serializeSnapshot json s.state s.duplicates now with
    | .error _ => none
    | .ok data => some (s.lastApplied, data)

end Server

/-! ## Contents of the map -/

/-- What a key-value map says about every key. -/
abbrev Contents := String → Option String

/-- The effect of an operation: `Put` overwrites, `Append` concatenates, and
nothing else writes. -/
def Op.effect (op : Op) (contents : Contents) : Contents :=
  match op.kind with
  | .put => Function.update contents op.key (some op.value)
  | .append =>
      Function.update contents op.key (some ((contents op.key).getD "" ++ op.value))
  | .get => contents
  | .unknown _ => contents

def Store.contents (store : Store) : Contents := fun key => store.lookup key

@[simp] theorem Store.contents_insert (store : Store) (key value : String) :
    Store.contents (store.insert key value) =
      Function.update store.contents key (some value) := by
  funext other
  by_cases same : other = key
  · subst same
    simp [Store.contents]
  · simp [Store.contents, same]

namespace Server

variable (s : Server)

theorem applyCommandLocked_contents (op : Op) :
    Store.contents (s.applyCommandLocked op).1.state = op.effect s.state.contents := by
  unfold applyCommandLocked Op.effect
  cases op.kind with
  | put => simp
  | append => simp [Store.contents]
  | get =>
      simp only
      split <;> rfl
  | unknown code => rfl

theorem cleanupDuplicateCacheLocked_state (clientId : Int) (now : Moment) :
    (s.cleanupDuplicateCacheLocked clientId now).state = s.state ∧
      (s.cleanupDuplicateCacheLocked clientId now).lastApplied = s.lastApplied := by
  unfold cleanupDuplicateCacheLocked
  split
  · exact ⟨rfl, rfl⟩
  · exact ⟨rfl, rfl⟩

/-- Executing an operation applies its effect and moves to its index. -/
theorem execute_contents (op : Op) (commandIndex : Nat) (now : Moment) :
    Store.contents (s.execute op commandIndex now).server.state =
        op.effect s.state.contents ∧
      (s.execute op commandIndex now).server.lastApplied = commandIndex := by
  simp only [execute, cleanupDuplicateCacheLocked_state, saveDuplicateLocked]
  exact ⟨s.applyCommandLocked_contents op, trivial⟩

/-- A command without a client id is executed whatever the cache holds. -/
theorem processApplyMsg_of_anonymous {json : Json} {command : Bytes} {op : Op}
    (decoded : deserializeCommand json command = .ok op) (anonymous : op.clientId = 0)
    (commandIndex : Nat) (now : Moment) :
    s.processApplyMsg json now (.command command commandIndex) =
      s.execute op commandIndex now := by
  simp [processApplyMsg, decoded, anonymous]

/-- What is handed over is an image of the map at the last applied index. -/
theorem takeSnapshot_decodes {json : Json} {threshold now : Int} {index : Nat}
    {data : Bytes} (taken : s.takeSnapshot json threshold now = some (index, data)) :
    index = s.lastApplied ∧ ∃ dedup, deserializeSnapshot json data = .ok (s.state, dedup) := by
  unfold takeSnapshot at taken
  split at taken
  · cases taken
  · split at taken
    · cases taken
    · split at taken
      · cases taken
      next serialized =>
        cases taken
        exact ⟨rfl, deserializeSnapshot_serializeSnapshot json serialized⟩

end Server

/-! ## Suppressed operations -/

namespace Server

/-- The operation is answered from the cache. -/
def Suppresses (s : Server) (op : Op) (now : Int) : Prop :=
  op.clientId ≠ 0 ∧ op.sequenceId ≠ 0 ∧
    (s.getDuplicateLocked op.clientId op.sequenceId now).2.isSome

instance (s : Server) (op : Op) (now : Int) : Decidable (s.Suppresses op now) :=
  inferInstanceAs (Decidable (_ ∧ _))

variable {s t : Server} {op : Op}

@[simp] theorem getDuplicateLocked_state (s : Server) (clientId seqNum now : Int) :
    (s.getDuplicateLocked clientId seqNum now).1.state = s.state := by
  unfold getDuplicateLocked
  split
  · rfl
  split
  · rfl
  split
  · rfl
  · rfl

@[simp] theorem execute_state (s : Server) (op : Op) (commandIndex : Nat) (now : Moment) :
    (s.execute op commandIndex now).server.state = (s.applyCommandLocked op).1.state := by
  simp only [execute, cleanupDuplicateCacheLocked_state, saveDuplicateLocked]

/-- New map and result depend on the old map alone. -/
theorem applyCommandLocked_congr (same : s.state = t.state) (op : Op) :
    (s.applyCommandLocked op).1.state = (t.applyCommandLocked op).1.state ∧
      (s.applyCommandLocked op).2 = (t.applyCommandLocked op).2 := by
  unfold applyCommandLocked
  rw [same]
  cases op.kind with
  | put => exact ⟨rfl, rfl⟩
  | append => exact ⟨rfl, rfl⟩
  | get =>
      simp only
      split
      · exact ⟨same, rfl⟩
      · exact ⟨same, rfl⟩
  | unknown code => exact ⟨same, rfl⟩

/-- The map after a command: kept if the command is suppressed or unreadable. -/
theorem processApplyMsg_state {json : Json} {command : Bytes}
    (decoded : deserializeCommand json command = .ok op) (s : Server) (index : Nat)
    (now : Moment) :
    (s.processApplyMsg json now (.command command index)).server.state =
      if s.Suppresses op now.time then s.state else (s.applyCommandLocked op).1.state := by
  have same := s.getDuplicateLocked_state op.clientId op.sequenceId now.time
  simp only [processApplyMsg, decoded]
  split
  next identified =>
    cases found : s.getDuplicateLocked op.clientId op.sequenceId now.time with
    | mk s' dup =>
        rw [found] at same
        cases dup with
        | some entry =>
            rw [if_pos ⟨identified.1, identified.2, by rw [found]; rfl⟩]
            exact same
        | none =>
            have executes : ¬ s.Suppresses op now.time := by
              rintro ⟨-, -, hit⟩
              rw [found] at hit
              cases hit
            rw [if_neg executes]
            simp only [execute_state]
            exact (applyCommandLocked_congr same op).1
  next anonymous =>
    have executes : ¬ s.Suppresses op now.time := fun hit => anonymous ⟨hit.1, hit.2.1⟩
    rw [if_neg executes, execute_state]

end Server

end DistribKV.KV
