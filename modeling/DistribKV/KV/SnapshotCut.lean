import DistribKV.KV.Server

/-!
# Cutting the log at a snapshot

A server that starts from a snapshot and applies the rest of the log cannot be told
from one that applied the whole log.  The two caches are not equal: a snapshot
leaves out what has expired and what is filed under no client.  What a later command
can see of a cache is, for every client, the map of results that have not expired.
-/

namespace DistribKV.KV

/-- A command message and the moment at which it is processed. -/
structure Arrival where
  command : Bytes
  index : Nat
  now : Moment
  deriving DecidableEq, Repr

/-! ## What later commands can see -/

theorem DuplicateEntry.expired_mono {entry : DuplicateEntry} {now later : Int}
    (after : now ≤ later) (expired : entry.expired now = true) : entry.expired later = true := by
  simp only [DuplicateEntry.expired, decide_eq_true_eq] at *
  omega

/-- The results of a client that are not expired. -/
def ClientMap.live (clientMap : ClientMap) (now : Int) : ClientMap :=
  clientMap.filterMap fun _ entry => if entry.expired now then none else some entry

/-- What has expired stays so. -/
theorem ClientMap.live_live (clientMap : ClientMap) {now later : Int} (after : now ≤ later) :
    ClientMap.live (clientMap.live now) later = clientMap.live later := by
  apply Finmap.ext_lookup
  intro seq
  simp only [ClientMap.live, Finmap.lookup_filterMap]
  cases clientMap.lookup seq with
  | none => rfl
  | some entry =>
      simp only [Option.bind_some]
      by_cases expired : entry.expired now = true
      · simp [expired, DuplicateEntry.expired_mono after expired]
      · simp [expired]

/-- A result that is filed now is live. -/
theorem ClientMap.live_insert (clientMap : ClientMap) (seqNum now : Int) (result : Result) :
    ClientMap.live (clientMap.insert seqNum ⟨result, now⟩) now =
      (clientMap.live now).insert seqNum ⟨result, now⟩ := by
  have fresh : (⟨result, now⟩ : DuplicateEntry).expired now = false := by
    simp [DuplicateEntry.expired, duplicateCacheExpiry]
  apply Finmap.ext_lookup
  intro seq
  by_cases here : seq = seqNum
  · subst here
    simp [ClientMap.live, fresh]
  · rw [Finmap.lookup_insert_of_ne _ here]
    simp only [ClientMap.live, Finmap.lookup_filterMap, Finmap.lookup_insert_of_ne _ here]

namespace Server

def liveOf (s : Server) (now clientId : Int) : ClientMap :=
  ClientMap.live ((s.duplicates.lookup clientId).getD ∅) now

variable {s t : Server} {op : Op} {now : Int}

/-- The lookup finds what is live. -/
theorem getDuplicateLocked_snd (s : Server) (clientId seqNum now : Int) :
    (s.getDuplicateLocked clientId seqNum now).2 = (s.liveOf now clientId).lookup seqNum := by
  unfold getDuplicateLocked liveOf ClientMap.live
  rw [Finmap.lookup_filterMap]
  cases s.duplicates.lookup clientId with
  | none => simp
  | some clientMap =>
      simp only [Option.getD_some]
      cases clientMap.lookup seqNum with
      | none => rfl
      | some entry =>
          simp only [Option.bind_some]
          split <;> rfl

/-- The lookup only drops what has expired. -/
theorem getDuplicateLocked_liveOf (s : Server) (clientId seqNum now other : Int) :
    (s.getDuplicateLocked clientId seqNum now).1.liveOf now other = s.liveOf now other := by
  unfold getDuplicateLocked
  split
  · rfl
  next clientMap held =>
    split
    · rfl
    next entry found =>
      split
      next expired =>
        unfold liveOf
        by_cases same : other = clientId
        · subst same
          apply Finmap.ext_lookup
          intro seq
          simp only [held, Finmap.lookup_insert, Option.getD_some, ClientMap.live,
            Finmap.lookup_filterMap]
          by_cases here : seq = seqNum
          · subst here
            simp [found, expired]
          · rw [Finmap.lookup_erase_ne here]
        · rw [Finmap.lookup_insert_of_ne _ same]
      · rfl

/-- The cache of a client after an execution. -/
def remembered (s : Server) (op : Op) (now : Moment) : ClientMap :=
  let live := (s.liveOf now.time op.clientId).insert op.sequenceId
    ⟨(s.applyCommandLocked op).2, now.time⟩
  evict now.order live (live.keys.card - maxDuplicateEntriesPerClient)

@[simp] theorem applyCommandLocked_duplicates (s : Server) (op : Op) :
    (s.applyCommandLocked op).1.duplicates = s.duplicates := by
  unfold applyCommandLocked
  cases op.kind with
  | put => rfl
  | append => rfl
  | get =>
      simp only
      split <;> rfl
  | unknown code => rfl

theorem execute_duplicates (s : Server) (op : Op) (index : Nat) (now : Moment) :
    (s.execute op index now).server.duplicates =
      s.duplicates.insert op.clientId (s.remembered op now) := by
  have filed := ClientMap.live_insert ((s.duplicates.lookup op.clientId).getD ∅) op.sequenceId
    now.time (s.applyCommandLocked op).2
  simp only [execute, saveDuplicateLocked, cleanupDuplicateCacheLocked,
    applyCommandLocked_duplicates, Finmap.lookup_insert, Finmap.insert_insert]
  rw [remembered, liveOf, ← filed]
  rfl

/-! ## Servers that cannot be told apart -/

/-- The same map, and the same live results for every client. -/
structure Alike (now : Int) (s t : Server) : Prop where
  state : s.state = t.state
  live : ∀ clientId, clientId ≠ 0 → s.liveOf now clientId = t.liveOf now clientId

namespace Alike

theorem later {after : Int} (alike : Alike now s t) (le : now ≤ after) : Alike after s t := by
  refine ⟨alike.state, fun clientId client => ?_⟩
  have same := congrArg (fun live => ClientMap.live live after) (alike.live clientId client)
  simp only [liveOf, ClientMap.live_live _ le] at same
  exact same

theorem getDuplicateLocked (alike : Alike now s t) (clientId seqNum : Int) :
    Alike now (s.getDuplicateLocked clientId seqNum now).1
      (t.getDuplicateLocked clientId seqNum now).1 := by
  constructor
  · rw [getDuplicateLocked_state, getDuplicateLocked_state]
    exact alike.state
  · intro other client
    rw [getDuplicateLocked_liveOf, getDuplicateLocked_liveOf]
    exact alike.live other client

/-- Executing an operation files the same result and evicts the same ones. -/
theorem execute {now : Moment} (alike : Alike now.time s t) (op : Op) (index : Nat) :
    Alike now.time (s.execute op index now).server (t.execute op index now).server ∧
      (s.execute op index now).notified = (t.execute op index now).notified := by
  obtain ⟨state, result⟩ := applyCommandLocked_congr alike.state op
  refine ⟨⟨?_, fun clientId client => ?_⟩, congrArg (fun r => some (index, r)) result⟩
  · rw [execute_state, execute_state]
    exact state
  · unfold liveOf
    rw [execute_duplicates, execute_duplicates]
    by_cases same : clientId = op.clientId
    · subst same
      have remembers : s.remembered op now = t.remembered op now := by
        unfold remembered
        rw [alike.live op.clientId client, result]
      rw [Finmap.lookup_insert, Finmap.lookup_insert, remembers]
    · rw [Finmap.lookup_insert_of_ne _ same, Finmap.lookup_insert_of_ne _ same]
      exact alike.live clientId client

/-- One command, processed at the same moment. -/
theorem processApplyMsg {json : Json} {now : Moment} (alike : Alike now.time s t)
    (command : Bytes) (index : Nat) :
    Alike now.time (s.processApplyMsg json now (.command command index)).server
        (t.processApplyMsg json now (.command command index)).server ∧
      (s.processApplyMsg json now (.command command index)).notified =
        (t.processApplyMsg json now (.command command index)).notified := by
  simp only [Server.processApplyMsg]
  cases deserializeCommand json command with
  | error err => exact ⟨alike, rfl⟩
  | ok op =>
      simp only
      split
      next identified =>
        have dropped := alike.getDuplicateLocked op.clientId op.sequenceId
        have found : (s.getDuplicateLocked op.clientId op.sequenceId now.time).2 =
            (t.getDuplicateLocked op.clientId op.sequenceId now.time).2 := by
          rw [getDuplicateLocked_snd, getDuplicateLocked_snd, alike.live _ identified.1]
        cases first : s.getDuplicateLocked op.clientId op.sequenceId now.time with
        | mk s' dup =>
            cases second : t.getDuplicateLocked op.clientId op.sequenceId now.time with
            | mk t' dup' =>
                rw [first, second] at dropped found
                cases found
                cases dup with
                | some entry => exact ⟨dropped, rfl⟩
                | none => exact dropped.execute op index
      · exact alike.execute op index

end Alike

/-- Process commands in order, with the results for the handlers. -/
def applyAll (json : Json) (s : Server) : List Arrival → Server × List (Option (Nat × Result))
  | [] => (s, [])
  | arrival :: rest =>
      let done := s.processApplyMsg json arrival.now (.command arrival.command arrival.index)
      let (t, results) := done.server.applyAll json rest
      (t, done.notified :: results)

theorem applyAll_append (json : Json) (s : Server) (before after : List Arrival) :
    s.applyAll json (before ++ after) =
      (((s.applyAll json before).1.applyAll json after).1,
        (s.applyAll json before).2 ++ ((s.applyAll json before).1.applyAll json after).2) := by
  induction before generalizing s with
  | nil => rfl
  | cons arrival rest ih =>
      simp only [List.cons_append, applyAll, ih]

@[simp] theorem length_applyAll (json : Json) (s : Server) (arrivals : List Arrival) :
    (s.applyAll json arrivals).2.length = arrivals.length := by
  induction arrivals generalizing s with
  | nil => rfl
  | cons arrival rest ih => simp [applyAll, ih]

/-- Servers that cannot be told apart give the same results ever after. -/
theorem Alike.applyAll (json : Json) {arrivals : List Arrival} (alike : Alike now s t)
    (ordered : (now :: arrivals.map (·.now.time)).Pairwise (· ≤ ·)) :
    (s.applyAll json arrivals).1.state = (t.applyAll json arrivals).1.state ∧
      (s.applyAll json arrivals).2 = (t.applyAll json arrivals).2 := by
  induction arrivals generalizing s t now with
  | nil => exact ⟨alike.state, rfl⟩
  | cons arrival rest ih =>
      obtain ⟨first, ordered⟩ := List.pairwise_cons.mp ordered
      have current := alike.later (first arrival.now.time (by simp))
      obtain ⟨alike, notified⟩ := current.processApplyMsg arrival.command arrival.index
      obtain ⟨state, results⟩ := ih alike ordered
      exact ⟨state, congrArg₂ List.cons notified results⟩

/-! ## Restoring a snapshot -/

/-- Every cached result is one that a snapshot can restore. -/
def Plain (s : Server) : Prop :=
  ∀ clientId clientMap seqNum entry, s.duplicates.lookup clientId = some clientMap →
    clientMap.lookup seqNum = some entry →
    entry.result.err = none ∨ entry.result.err = some errKeyNotFound

/-- Eviction only drops entries. -/
theorem lookup_of_lookup_evict {order : List Int} {clientMap : ClientMap} {rounds : Nat}
    {seqNum : Int} {entry : DuplicateEntry}
    (kept : (evict order clientMap rounds).lookup seqNum = some entry) :
    clientMap.lookup seqNum = some entry := by
  induction rounds generalizing clientMap with
  | zero => exact kept
  | succ rounds ih =>
      simp only [evict] at kept
      split at kept
      · exact kept
      next seq _ =>
        have held := ih kept
        by_cases dropped : seqNum = seq
        · rw [dropped, Finmap.lookup_erase] at held
          cases held
        · rwa [Finmap.lookup_erase_ne dropped] at held

/-- `Get`, `Put` and `Append` end with one of the two results. -/
theorem applyCommandLocked_err (s : Server) {op : Op} (known : ∀ code, op.kind ≠ .unknown code) :
    (s.applyCommandLocked op).2.err = none ∨
      (s.applyCommandLocked op).2.err = some errKeyNotFound := by
  unfold applyCommandLocked
  cases kind : op.kind with
  | put => exact .inl rfl
  | append => exact .inl rfl
  | get =>
      simp only
      split
      · exact .inr rfl
      · exact .inl rfl
  | unknown code => exact absurd kind (known code)

namespace Plain

theorem execute (plain : s.Plain) (known : ∀ code, op.kind ≠ .unknown code) (index : Nat)
    (now : Moment) : (s.execute op index now).server.Plain := by
  intro clientId clientMap seqNum entry client found
  rw [execute_duplicates] at client
  by_cases same : clientId = op.clientId
  · subst same
    rw [Finmap.lookup_insert] at client
    cases client
    have kept := lookup_of_lookup_evict found
    by_cases here : seqNum = op.sequenceId
    · subst here
      rw [Finmap.lookup_insert] at kept
      cases kept
      exact s.applyCommandLocked_err known
    · rw [Finmap.lookup_insert_of_ne _ here, liveOf, ClientMap.live,
        Finmap.lookup_filterMap] at kept
      cases held : s.duplicates.lookup op.clientId with
      | none => simp [held] at kept
      | some clientMap =>
          rw [held, Option.getD_some] at kept
          obtain ⟨old, found, unexpired⟩ := Option.bind_eq_some_iff.mp kept
          split at unexpired
          · cases unexpired
          · cases unexpired
            exact plain _ _ _ _ held found
  · rw [Finmap.lookup_insert_of_ne _ same] at client
    exact plain _ _ _ _ client found

theorem getDuplicateLocked (plain : s.Plain) (clientId seqNum now : Int) :
    (s.getDuplicateLocked clientId seqNum now).1.Plain := by
  unfold Server.getDuplicateLocked
  split
  · exact plain
  next clientMap held =>
    split
    · exact plain
    · split
      · intro other otherMap seq entry client found
        by_cases same : other = clientId
        · subst same
          simp only [Finmap.lookup_insert, Option.some.injEq] at client
          subst client
          by_cases here : seq = seqNum
          · rw [here, Finmap.lookup_erase] at found
            cases found
          · rw [Finmap.lookup_erase_ne here] at found
            exact plain _ _ _ _ held found
        · simp only [Finmap.lookup_insert_of_ne _ same] at client
          exact plain _ _ _ _ client found
      · exact plain

end Plain

end Server

/-- A command of one of the three kinds, or an unreadable one. -/
def Arrival.Known (json : Json) (arrival : Arrival) : Prop :=
  ∀ op, deserializeCommand json arrival.command = .ok op → ∀ code, op.kind ≠ .unknown code

namespace Server

variable {s t : Server} {now : Int}

theorem Plain.applyAll {json : Json} {arrivals : List Arrival} (plain : s.Plain)
    (known : ∀ arrival ∈ arrivals, arrival.Known json) : (s.applyAll json arrivals).1.Plain := by
  induction arrivals generalizing s with
  | nil => exact plain
  | cons arrival rest ih =>
      refine ih ?_ fun other member => known other (List.mem_cons_of_mem _ member)
      simp only [processApplyMsg]
      cases decoded : deserializeCommand json arrival.command with
      | error err => exact plain
      | ok op =>
          have kind := known arrival (by simp) op decoded
          simp only
          split
          · have dropped := plain.getDuplicateLocked op.clientId op.sequenceId arrival.now.time
            cases found : s.getDuplicateLocked op.clientId op.sequenceId arrival.now.time with
            | mk s' dup =>
                rw [found] at dropped
                cases dup with
                | some entry => exact dropped
                | none => exact dropped.execute kind _ _
          · exact plain.execute kind _ _

/-- A server that reads a snapshot cannot be told from the one that wrote it. -/
theorem Alike.restored {json : Json} {data : Bytes} (plain : s.Plain)
    (serialized : serializeSnapshot json s.state s.duplicates now = .ok data)
    (r : Server) (index : Nat) : Alike now (r.handleSnapshotMsg json data index) s := by
  unfold serializeSnapshot at serialized
  simp only at serialized
  split at serialized
  · cases serialized
  next encoded marshalled =>
    cases serialized
    simp only [handleSnapshotMsg, deserializeSnapshot, json.roundTrip _ _ marshalled]
    refine ⟨rfl, fun clientId client => ?_⟩
    unfold liveOf
    simp only [Finmap.lookup_filterMap]
    cases held : s.duplicates.lookup clientId with
    | none => rfl
    | some clientMap =>
        apply Finmap.ext_lookup
        intro seqNum
        have restores : ∀ entry, clientMap.lookup seqNum = some entry →
            sentinelErr (errString entry.result.err) = entry.result.err := by
          intro entry found
          rcases plain _ _ _ _ held found with none | missing
          · rw [none]
            rfl
          · rw [missing]
            rfl
        -- the stored form of the client's results, looked up at one sequence number
        have stored := Finmap.lookup_filterMap (fun (_ : Int) (entry : DuplicateEntry) =>
          if entry.expired now then none
          else some (SnapshotEntry.mk entry.result.value (errString entry.result.err)
            entry.timestamp)) clientMap seqNum
        simp only [Option.bind_some, client, false_and, if_false]
        generalize (clientMap.filterMap fun (_ : Int) (entry : DuplicateEntry) =>
          if entry.expired now then none
          else some (SnapshotEntry.mk entry.result.value (errString entry.result.err)
            entry.timestamp)) = kept at *
        by_cases empty : kept = ∅
        · subst empty
          simp only [if_true, Option.bind_none, Option.getD_none, Option.getD_some, ClientMap.live,
            Finmap.lookup_filterMap, Finmap.lookup_empty] at stored ⊢
          cases found : clientMap.lookup seqNum with
          | none => rfl
          | some entry =>
              rw [found] at stored
              simp only [Option.bind_some] at stored ⊢
              split at stored
              next expired => simp [expired]
              · cases stored
        · simp only [empty, if_false, Option.bind_some, Option.getD_some, ClientMap.live,
            Finmap.lookup_filterMap, stored]
          cases found : clientMap.lookup seqNum with
          | none => rfl
          | some entry =>
              simp only [Option.bind_some]
              by_cases expired : entry.expired now = true
              · simp [expired]
              · rw [if_neg expired, if_neg expired, Option.bind_some, Option.bind_some,
                  restores entry found]
                exact if_neg expired

end Server

/-- The apply times on both sides of a cut, and the time at which the snapshot is
serialized in between. -/
structure Cut (before after : List Arrival) (taken : Int) : Prop where
  ordered : ((before ++ after).map (·.now.time)).Pairwise (· < ·)
  earlier : ∀ arrival ∈ before, arrival.now.time ≤ taken
  later : ∀ arrival ∈ after, taken ≤ arrival.now.time

/-- Cutting the log at a snapshot is invisible: a fresh server that reads the snapshot
taken after a prefix of the commands, and then processes the rest, ends with the map
of a server that processes all of them, and gives the same results. -/
theorem snapshot_cut_invisible (json : Json) {before after : List Arrival} {taken : Int}
    {data : Bytes} (index term : Nat) (restored : Moment)
    (known : ∀ arrival ∈ before, arrival.Known json) (cut : Cut before after taken)
    (serialized : serializeSnapshot json (Server.applyAll json {} before).1.state
      (Server.applyAll json {} before).1.duplicates taken = .ok data) :
    let whole := Server.applyAll json {} (before ++ after)
    let fresh := (Server.processApplyMsg {} json restored (.snapshot data index term)).server
    (fresh.applyAll json after).1.state = whole.1.state ∧
      (fresh.applyAll json after).2 = whole.2.drop before.length := by
  have plain : (Server.applyAll json {} before).1.Plain := by
    refine Server.Plain.applyAll ?_ known
    intro clientId clientMap seqNum entry client
    cases client
  have ordered : (taken :: after.map (·.now.time)).Pairwise (· ≤ ·) := by
    have later := (List.pairwise_append.mp (List.map_append ▸ cut.ordered)).2.1
    refine List.pairwise_cons.mpr ⟨?_, later.imp Int.le_of_lt⟩
    intro now member
    obtain ⟨arrival, inAfter, rfl⟩ := List.mem_map.mp member
    exact cut.later arrival inAfter
  have alike := Server.Alike.restored plain serialized {} index
  obtain ⟨state, results⟩ := alike.applyAll json ordered
  rw [Server.applyAll_append]
  refine ⟨state, results.trans ?_⟩
  rw [List.drop_left' (Server.length_applyAll json {} before)]

/-- Client `1` appends `a` under `x` with sequence number `1`. -/
def appendX : Bytes :=
  ("\x7b\"op\":3,\"key\":\"x\",\"value\":\"a\"," ++
    "\"client_id\":1,\"sequence_num\":1\x7d").toUTF8.data.toList

/-- The JSON library on this command. -/
def appendJson : Json :=
  .ofCommands fun data =>
    if data = appendX then .ok ⟨3, "x", "a", 1, 1⟩ else .error "unexpected end of JSON input"

/-- What a server holds after client `1` has appended `a` under `x` at time `0`. -/
def cutPayload : SnapshotPayload where
  state := (∅ : Store).insert "x" "a"
  dedup := Finmap.singleton 1 (Finmap.singleton 1 ⟨"", "", 0⟩)

def cutImage : Bytes :=
  ("\x7b\"state\":\x7b\"x\":\"a\"\x7d,\"dedup\":\x7b\"1\":\x7b\"1\":" ++
    "\x7b\"value\":\"\",\"ts\":\"1970-01-01T00:00:00Z\"\x7d\x7d\x7d\x7d").toUTF8.data.toList

/-- The JSON library on this command and this snapshot. -/
def cutJson : Json where
  unmarshalCommand := appendJson.unmarshalCommand
  marshalSnapshot payload :=
    if payload = cutPayload then .ok cutImage else .error "unsupported value"
  unmarshalSnapshot data :=
    if data = cutImage then .ok cutPayload else .error "unexpected end of JSON input"
  roundTrip := by
    intro payload data marshalled
    split at marshalled
    next same =>
      cases marshalled
      rw [if_pos rfl, same]
    · cases marshalled

/-- The client repeats its command after the cut: the restored server answers from
its cache, as the other one does. -/
theorem snapshot_cut_invisible_retry :
    serializeSnapshot cutJson (Server.applyAll cutJson {} [⟨appendX, 1, 0⟩]).1.state
        (Server.applyAll cutJson {} [⟨appendX, 1, 0⟩]).1.duplicates 1000000000 = .ok cutImage ∧
      (Server.applyAll cutJson {} [⟨appendX, 1, 0⟩, ⟨appendX, 2, 2000000000⟩]).1.state.lookup "x" =
        some "a" ∧
      ((Server.processApplyMsg {} cutJson 0 (.snapshot cutImage 1 1)).server.applyAll cutJson
          [⟨appendX, 2, 2000000000⟩]).1.state =
        (Server.applyAll cutJson {} [⟨appendX, 1, 0⟩, ⟨appendX, 2, 2000000000⟩]).1.state := by
  have serialized : serializeSnapshot cutJson
      (Server.applyAll cutJson {} [⟨appendX, 1, 0⟩]).1.state
      (Server.applyAll cutJson {} [⟨appendX, 1, 0⟩]).1.duplicates 1000000000 = .ok cutImage := by
    decide +kernel
  have known : ∀ arrival ∈ [(⟨appendX, 1, 0⟩ : Arrival)], arrival.Known cutJson := by
    intro arrival member op decoded code
    rw [List.mem_singleton.mp member] at decoded
    have append : deserializeCommand cutJson appendX = .ok ⟨.append, "x", "a", 1, 1⟩ := by
      decide +kernel
    cases append.symm.trans decoded
    exact fun same => nomatch same
  have cut : Cut [⟨appendX, 1, 0⟩] [⟨appendX, 2, 2000000000⟩] 1000000000 :=
    ⟨by decide, by decide, by decide⟩
  exact ⟨serialized, by decide +kernel,
    (snapshot_cut_invisible cutJson 1 1 0 known cut serialized).1⟩

end DistribKV.KV
