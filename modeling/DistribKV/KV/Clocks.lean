import DistribKV.Consensus.Lockstep
import DistribKV.KV.DuplicateWindow

/-!
# Replicas and their clocks

Every replica applies the same commands, each at times of its own.  Whether a repeated
command is executed again depends on the local clock: a cached result is forgotten after
ten seconds, or when the results of its client exceed the cap.  Of results that are
equally old any one may go first.

Two replicas have the same map as long as clocks, ids and cap decide alike on every
repeated command: since an earlier occurrence, more than ten seconds have passed on both
clocks, or on neither; and in the second case no more sequence numbers of the client than
the cap have been seen since, on either one.
-/

namespace DistribKV.KV

open Consensus

/-- A command message and the moments at which two replicas process it. -/
structure Tick where
  command : Bytes
  index : Nat
  first : Moment
  second : Moment
  deriving DecidableEq, Repr

/-- The message as one of the replicas gets it. -/
def Tick.arrival (clock : Tick → Moment) (tick : Tick) : Arrival :=
  ⟨tick.command, tick.index, clock tick⟩

/-- The ids of the command, which are the same on both replicas. -/
def Tick.ids (json : Json) (tick : Tick) : Option (Int × Int) :=
  (tick.arrival Tick.first).ids json

/-! ## What clocks, ids and cap say -/

section Window

variable (json : Json) (duplicates : Finmap fun _ : Int => ClientMap)

/-- The times on both clocks at which a request was seen: what is cached before the first
message carries one time for both. -/
def sightings (past : List Tick) (ids : Int × Int) : List (Int × Int) :=
  (((duplicates.lookup ids.1).bind (·.lookup ids.2)).map fun entry =>
      (entry.timestamp, entry.timestamp)).toList ++
    past.filterMap fun tick =>
      if tick.ids json = some ids then some (tick.first.time, tick.second.time) else none

/-- The sequence numbers of a client that were seen since a time of one clock. -/
def seqsSeen (clock : Tick → Moment) (past : List Tick) (clientId since : Int) : Finset Int :=
  Server.notOlderSeqs ((duplicates.lookup clientId).getD ∅) since ∪
    (past.filterMap fun tick => (tick.ids json).bind fun ids =>
      if ids.1 = clientId ∧ since ≤ (clock tick).time then some ids.2 else none).toFinset

/-- A request that was seen at a time is still known: not more than ten seconds have
passed, and its client has not exceeded the cap. -/
def Retains (clock : Tick → Moment) (past : List Tick) (tick : Tick) (clientId since : Int) :
    Prop :=
  (clock tick).time - since ≤ duplicateCacheExpiry ∧
    (seqsSeen json duplicates clock past clientId since).card ≤ maxDuplicateEntriesPerClient

/-- More than ten seconds have passed. -/
def Forgets (clock : Tick → Moment) (tick : Tick) (since : Int) : Prop :=
  duplicateCacheExpiry < (clock tick).time - since

/-- Whenever the request was seen, it is forgotten on both replicas or known on both. -/
def SameWindow (past : List Tick) (tick : Tick) : Prop :=
  ∀ ids ∈ (tick.arrival Tick.first).key json, ∀ times ∈ sightings json duplicates past ids,
    Forgets Tick.first tick times.1 ∧ Forgets Tick.second tick times.2 ∨
      Retains json duplicates Tick.first past tick ids.1 times.1 ∧
        Retains json duplicates Tick.second past tick ids.1 times.2

instance (past : List Tick) (tick : Tick) : Decidable (SameWindow json duplicates past tick) := by
  unfold SameWindow Forgets Retains
  infer_instance

variable {json duplicates}

theorem mem_sightings {past : List Tick} {ids times : Int × Int} :
    times ∈ sightings json duplicates past ids ↔
      (∃ entry, (duplicates.lookup ids.1).bind (·.lookup ids.2) = some entry ∧
        (entry.timestamp, entry.timestamp) = times) ∨
      ∃ tick ∈ past, tick.ids json = some ids ∧
        (tick.first.time, tick.second.time) = times := by
  simp only [sightings, List.mem_append, Option.mem_toList, Option.map_eq_some_iff,
    List.mem_filterMap, Option.ite_none_right_eq_some, Option.some.injEq]

theorem sightings_mono {past : List Tick} {ids times : Int × Int} (tick : Tick)
    (seen : times ∈ sightings json duplicates past ids) :
    times ∈ sightings json duplicates (past ++ [tick]) ids := by
  rw [mem_sightings] at seen ⊢
  refine seen.imp_right ?_
  rintro ⟨earlier, mem, same⟩
  exact ⟨earlier, List.mem_append_left _ mem, same⟩

theorem mem_seqsSeen {clock : Tick → Moment} {past : List Tick} {clientId since seq : Int} :
    seq ∈ seqsSeen json duplicates clock past clientId since ↔
      (∃ entry, (duplicates.lookup clientId).bind (·.lookup seq) = some entry ∧
        since ≤ entry.timestamp) ∨
      ∃ tick ∈ past, tick.ids json = some (clientId, seq) ∧ since ≤ (clock tick).time := by
  rw [seqsSeen, Finset.mem_union, Server.mem_notOlderSeqs]
  refine or_congr ?_ ?_
  · cases duplicates.lookup clientId with
    | none => simp
    | some clientMap => rfl
  · simp only [List.mem_toFinset, List.mem_filterMap, Option.bind_eq_some_iff,
      Option.ite_none_right_eq_some, Option.some.injEq]
    constructor
    · rintro ⟨tick, mem, ⟨_, _⟩, ids, ⟨rfl, since⟩, rfl⟩
      exact ⟨tick, mem, ids, since⟩
    · rintro ⟨tick, mem, ids, since⟩
      exact ⟨tick, mem, _, ids, ⟨rfl, since⟩, rfl⟩

end Window

/-! ## Two replicas side by side -/

/-- What two replicas have filed for one command. -/
structure Sight where
  ids : Int × Int
  first : DuplicateEntry
  second : DuplicateEntry

/-- As one of them has filed it. -/
def Sight.filing (side : Sight → DuplicateEntry) (sight : Sight) : Filing :=
  ⟨sight.ids.1, sight.ids.2, side sight⟩

namespace Server

variable {json : Json} {duplicates : Finmap fun _ : Int => ClientMap} {s t : Server}
variable {log : List Filing}

theorem suppresses_iff (s : Server) (op : Op) (now : Int) :
    s.Suppresses op now ↔ op.clientId ≠ 0 ∧ op.sequenceId ≠ 0 ∧
      ∃ entry, s.cached op.clientId op.sequenceId = some entry ∧ entry.expired now = false := by
  unfold Suppresses
  rw [getDuplicateLocked_snd, lookup_liveOf, Option.isSome_iff_exists]
  refine and_congr_right fun _ => and_congr_right fun _ => ?_
  constructor
  · rintro ⟨entry, found⟩
    obtain ⟨old, held, live⟩ := Option.bind_eq_some_iff.mp found
    split at live
    · cases live
    next fresh => exact ⟨old, held, Bool.eq_false_iff.mpr fresh⟩
  · rintro ⟨entry, held, fresh⟩
    exact ⟨entry, by rw [held, Option.bind_some, if_neg (Bool.eq_false_iff.mp fresh)]⟩

/-- A request whose last result is old is executed. -/
theorem Remembers.not_suppresses {now : Int} {op : Op} (remembers : Remembers log now s)
    (old : ∀ f, Latest Filing.ids log f → f.ids = (op.clientId, op.sequenceId) →
      duplicateCacheExpiry < now - f.entry.timestamp) : ¬ s.Suppresses op now := by
  rw [suppresses_iff]
  rintro ⟨-, -, entry, held, fresh⟩
  have expired : entry.expired now = true :=
    decide_eq_true (old _ (remembers.filed _ _ _ held) rfl)
  rw [expired] at fresh
  cases fresh

/-- A request whose last result is recent, with few others since, is answered with it. -/
theorem Remembers.suppresses {now : Int} {op : Op} {f : Filing} (remembers : Remembers log now s)
    (identified : op.clientId ≠ 0 ∧ op.sequenceId ≠ 0) (latest : Latest Filing.ids log f)
    (same : f.ids = (op.clientId, op.sequenceId))
    (few : (seqsSince log f.clientId f.entry.timestamp).card ≤ maxDuplicateEntriesPerClient)
    (young : now - f.entry.timestamp ≤ duplicateCacheExpiry) : s.Suppresses op now := by
  have held := remembers.kept f latest few young
  rw [show f.clientId = op.clientId from congrArg Prod.fst same,
    show f.sequenceId = op.sequenceId from congrArg Prod.snd same] at held
  exact (s.suppresses_iff op now).mpr
    ⟨identified.1, identified.2, f.entry, held, not_expired_of_le young⟩

/-- What is filed was seen, at a time of the clock or before the first message. -/
theorem seqsSince_subset_seqsSeen {sights : List Sight} {side : Sight → DuplicateEntry}
    {clock : Tick → Moment} {past : List Tick}
    (seen : ∀ p ∈ sights, (∃ entry, (duplicates.lookup p.ids.1).bind (·.lookup p.ids.2) =
        some entry ∧ entry.timestamp = (side p).timestamp) ∨
      ∃ tick ∈ past, tick.ids json = some p.ids ∧ (clock tick).time = (side p).timestamp)
    (clientId since : Int) :
    seqsSince (sights.map (Sight.filing side)) clientId since ⊆
      seqsSeen json duplicates clock past clientId since := by
  intro seq mem
  obtain ⟨entry, filed, since⟩ := mem_seqsSince.mp mem
  obtain ⟨p, known, same⟩ := List.mem_map.mp filed
  cases same
  rw [mem_seqsSeen]
  rcases seen p known with ⟨old, held, time⟩ | ⟨tick, mem, ids, time⟩
  · exact .inl ⟨old, held, time ▸ since⟩
  · exact .inr ⟨tick, mem, ids, time ▸ since⟩

/-- Two replicas with the same map have filed results for the same commands, each of
them seen at the times of its two results. -/
structure SideBySide (json : Json) (duplicates : Finmap fun _ : Int => ClientMap)
    (sights : List Sight) (past : List Tick) (s t : Server) : Prop where
  state : s.state = t.state
  seen : ∀ p ∈ sights,
    (p.first.timestamp, p.second.timestamp) ∈ sightings json duplicates past p.ids
  first : ∀ now, (∀ tick ∈ past, tick.first.time ≤ now) →
    Remembers (sights.map (Sight.filing Sight.first)) now s
  second : ∀ now, (∀ tick ∈ past, tick.second.time ≤ now) →
    Remembers (sights.map (Sight.filing Sight.second)) now t

namespace SideBySide

variable {sights : List Sight} {past : List Tick} {tick : Tick} {op : Op}

/-- What a cache holds, as a list. -/
theorem exists_sights (duplicates : Finmap fun _ : Int => ClientMap) :
    ∃ sights : List Sight, ∀ p, p ∈ sights ↔ p.first = p.second ∧
      (duplicates.lookup p.ids.1).bind (·.lookup p.ids.2) = some p.first := by
  refine ⟨duplicates.keys.toList.flatMap fun clientId =>
    ((duplicates.lookup clientId).getD ∅).keys.toList.filterMap fun seqNum =>
      ((duplicates.lookup clientId).bind (·.lookup seqNum)).map fun entry =>
        ⟨(clientId, seqNum), entry, entry⟩, fun p => ?_⟩
  simp only [List.mem_flatMap, List.mem_filterMap, Finset.mem_toList, Finmap.mem_keys,
    Option.map_eq_some_iff]
  constructor
  · rintro ⟨clientId, -, seqNum, -, entry, held, rfl⟩
    exact ⟨rfl, held⟩
  · rintro ⟨same, held⟩
    obtain ⟨clientMap, client, here⟩ := Option.bind_eq_some_iff.mp held
    refine ⟨p.ids.1, Finmap.mem_of_lookup_eq_some client, p.ids.2, ?_, p.first, held, ?_⟩
    · rw [client, Option.getD_some]
      exact Finmap.mem_of_lookup_eq_some here
    · nth_rewrite 2 [same]
      rfl

theorem initial (json : Json) (state : Store) (duplicates : Finmap fun _ : Int => ClientMap)
    (applied applied' snapshot snapshot' : Nat) :
    ∃ sights, SideBySide json duplicates sights [] ⟨state, duplicates, applied, snapshot⟩
      ⟨state, duplicates, applied', snapshot'⟩ := by
  obtain ⟨sights, listed⟩ := exists_sights duplicates
  refine ⟨sights, rfl, fun p mem => ?_, fun now _ => .of_cached (fun f => ?_) now,
    fun now _ => .of_cached (fun f => ?_) now⟩
  · obtain ⟨same, held⟩ := (listed p).mp mem
    exact mem_sightings.mpr (.inl ⟨p.first, held, by rw [same]⟩)
  all_goals
    rw [List.mem_map]
    constructor
    · rintro ⟨p, mem, rfl⟩
      obtain ⟨same, held⟩ := (listed p).mp mem
      first | exact held | exact held.trans (congrArg some same)
    · intro held
      exact ⟨⟨f.ids, f.entry, f.entry⟩, (listed _).mpr ⟨rfl, held⟩, rfl⟩

/-- On either clock, what was filed since a time was seen since. -/
theorem seqsSeen (side : SideBySide json duplicates sights past s t) (clientId since : Int) :
    seqsSince (sights.map (Sight.filing Sight.first)) clientId since ⊆
        KV.seqsSeen json duplicates Tick.first past clientId since ∧
      seqsSince (sights.map (Sight.filing Sight.second)) clientId since ⊆
        KV.seqsSeen json duplicates Tick.second past clientId since := by
  constructor
  all_goals
    refine seqsSince_subset_seqsSeen (fun p mem => ?_) clientId since
    rcases mem_sightings.mp (side.seen p mem) with ⟨entry, held, times⟩ | ⟨tick, seen, ids, times⟩
  · exact .inl ⟨entry, held, congrArg Prod.fst times⟩
  · exact .inr ⟨tick, seen, ids, congrArg Prod.fst times⟩
  · exact .inl ⟨entry, held, congrArg Prod.snd times⟩
  · exact .inr ⟨tick, seen, ids, congrArg Prod.snd times⟩

/-- Both replicas execute a command, or neither does. -/
theorem suppresses_iff (side : SideBySide json duplicates sights past s t)
    (rising : ∀ earlier ∈ past, earlier.first.time ≤ tick.first.time ∧
      earlier.second.time ≤ tick.second.time)
    (window : SameWindow json duplicates past tick)
    (decoded : deserializeCommand json tick.command = .ok op) :
    s.Suppresses op tick.first.time ↔ t.Suppresses op tick.second.time := by
  have first := side.first tick.first.time fun earlier mem => (rising earlier mem).1
  have second := side.second tick.second.time fun earlier mem => (rising earlier mem).2
  by_cases identified : op.clientId ≠ 0 ∧ op.sequenceId ≠ 0
  · have key : (tick.arrival Tick.first).key json = some (op.clientId, op.sequenceId) :=
      Arrival.key_eq_some.mpr ⟨op, decoded, rfl, rfl, identified⟩
    have latest : ∀ which : Sight → DuplicateEntry, ∀ {f},
        Latest Filing.ids (sights.map (Sight.filing which)) f ↔
          ∃ p, Latest Sight.ids sights p ∧ Sight.filing which p = f :=
      fun which => Latest.map_iff fun _ => rfl
    -- the last result decides, if there is one
    by_cases filed : ∃ p, Latest Sight.ids sights p ∧ p.ids = (op.clientId, op.sequenceId)
    · obtain ⟨p, last, ids⟩ := filed
      have decides := window _ key _ (ids ▸ side.seen p last.mem)
      rcases decides with ⟨old, old'⟩ | ⟨⟨young, few⟩, young', few'⟩
      · refine iff_of_false (first.not_suppresses ?_) (second.not_suppresses ?_)
        all_goals
          intro f filed same
          obtain ⟨q, last', rfl⟩ := (latest _).mp filed
          cases last'.eq last (same.trans ids.symm)
          assumption
      · refine iff_of_true ?_ ?_
        · refine first.suppresses identified ((latest _).mpr ⟨p, last, rfl⟩) ids ?_ young
          exact (Finset.card_le_card (side.seqsSeen _ _).1).trans (by simpa [Sight.filing, ids])
        · refine second.suppresses identified ((latest _).mpr ⟨p, last, rfl⟩) ids ?_ young'
          exact (Finset.card_le_card (side.seqsSeen _ _).2).trans (by simpa [Sight.filing, ids])
    · refine iff_of_false (first.not_suppresses ?_) (second.not_suppresses ?_)
      all_goals
        intro f here same
        obtain ⟨p, last, rfl⟩ := (latest _).mp here
        exact absurd ⟨p, last, same⟩ filed
  · exact iff_of_false (fun hit => identified ⟨hit.1, hit.2.1⟩)
      fun hit => identified ⟨hit.1, hit.2.1⟩

/-- Both replicas file a result for a command, or neither does. -/
theorem files_alike (side : SideBySide json duplicates sights past s t)
    (rising : ∀ earlier ∈ past, earlier.first.time ≤ tick.first.time ∧
      earlier.second.time ≤ tick.second.time)
    (window : SameWindow json duplicates past tick) :
    (s.files json (tick.arrival Tick.first) = none ∧
        t.files json (tick.arrival Tick.second) = none) ∨
      ∃ op, deserializeCommand json tick.command = .ok op ∧
        s.files json (tick.arrival Tick.first) = some (s.filing op tick.first.time) ∧
        t.files json (tick.arrival Tick.second) = some (t.filing op tick.second.time) := by
  unfold files Tick.arrival
  cases decoded : deserializeCommand json tick.command with
  | error err => exact .inl ⟨rfl, rfl⟩
  | ok op =>
      have same := side.suppresses_iff rising window decoded
      by_cases suppressed : s.Suppresses op tick.first.time
      · exact .inl ⟨if_pos suppressed, if_pos (same.mp suppressed)⟩
      · exact .inr ⟨op, rfl, if_neg suppressed, if_neg fun hit => suppressed (same.mpr hit)⟩

theorem step (side : SideBySide json duplicates sights past s t)
    (rising : ∀ earlier ∈ past, earlier.first.time ≤ tick.first.time ∧
      earlier.second.time ≤ tick.second.time)
    (window : SameWindow json duplicates past tick) :
    ∃ sights', SideBySide json duplicates sights' (past ++ [tick])
      (s.afterArrival json (tick.arrival Tick.first))
      (t.afterArrival json (tick.arrival Tick.second)) := by
  have now : tick.first.time = (tick.arrival Tick.first).now.time := rfl
  have now' : tick.second.time = (tick.arrival Tick.second).now.time := rfl
  have first := (side.first _ fun earlier mem => (rising earlier mem).1).afterArrival json now.le
  have second := (side.second _ fun earlier mem => (rising earlier mem).2).afterArrival json
    now'.le
  have state := s.afterArrival_state json (tick.arrival Tick.first)
  have state' := t.afterArrival_state json (tick.arrival Tick.second)
  have here : ∀ {time : Tick → Int} {now}, (∀ tick' ∈ past ++ [tick], time tick' ≤ now) →
      time tick ≤ now := fun last => last tick (by simp)
  rcases side.files_alike rising window with ⟨none, none'⟩ | ⟨op, decoded, some, some'⟩
  · rw [none, Option.toList_none, List.append_nil] at first
    rw [none', Option.toList_none, List.append_nil] at second
    rw [if_pos none] at state
    rw [if_pos none'] at state'
    exact ⟨sights, state.trans (side.state.trans state'.symm),
      fun p mem => sightings_mono tick (side.seen p mem),
      fun _ last => first.later (here last), fun _ last => second.later (here last)⟩
  · rw [some, Option.toList_some] at first
    rw [some', Option.toList_some] at second
    rw [some, if_neg (Option.some_ne_none _)] at state
    rw [some', if_neg (Option.some_ne_none _)] at state'
    refine ⟨sights ++ [⟨(op.clientId, op.sequenceId), (s.filing op tick.first.time).entry,
      (t.filing op tick.second.time).entry⟩], ?_, fun p mem => ?_, fun _ last => ?_,
      fun _ last => ?_⟩
    · rw [state, state']
      exact applyArrival_congr side.state _
    · rcases List.mem_append.mp mem with old | new
      · exact sightings_mono tick (side.seen p old)
      · cases List.mem_singleton.mp new
        refine mem_sightings.mpr (.inr ⟨tick, by simp, ?_, rfl⟩)
        simp [Tick.ids, Arrival.ids, Tick.arrival, decoded]
    · rw [List.map_append]
      exact first.later (here last)
    · rw [List.map_append]
      exact second.later (here last)

end SideBySide

/-- The server after a message, processed at the moment that `clock` says. -/
def tickBy (json : Json) (clock : Tick → Moment) (s : Server) (tick : Tick) : Server :=
  s.afterArrival json (tick.arrival clock)

/-- The server after a sequence of messages. -/
def ticksBy (json : Json) (clock : Tick → Moment) (s : Server) (ticks : List Tick) : Server :=
  ticks.foldl (tickBy json clock) s

end Server

/-- Two servers that start with the same map and the same cache and process the same
commands, at any non-decreasing times, have the same map after every message if every
repeated request finds the same window on both clocks: since each earlier occurrence more
than ten seconds have passed on both, or on neither, and then with no more sequence numbers
of the client since than the cap on either.  Which of several equally old results an
eviction drops is arbitrary on both. -/
theorem maps_equal_in_window (json : Json) (state : Store)
    (duplicates : Finmap fun _ : Int => ClientMap)
    (applied applied' snapshot snapshot' : Nat) (ticks : List Tick)
    (rising : ticks.Pairwise fun earlier later =>
      earlier.first.time ≤ later.first.time ∧ earlier.second.time ≤ later.second.time)
    (window : Admitted (SameWindow json duplicates) [] ticks) (n : Nat) :
    (Server.ticksBy json Tick.first ⟨state, duplicates, applied, snapshot⟩
        (ticks.take n)).state =
      (Server.ticksBy json Tick.second ⟨state, duplicates, applied', snapshot'⟩
        (ticks.take n)).state := by
  have related := @related_of_admitted _ _ _ (Server.tickBy json Tick.first)
    (Server.tickBy json Tick.second)
    (fun past s t => ∃ sights, Server.SideBySide json duplicates sights past s t) _
    (fun ⟨_, side⟩ ⟨rising, window⟩ => side.step rising window) _ _ _ _
    (Server.SideBySide.initial json state duplicates applied applied' snapshot snapshot')
    (window.of_pairwise rising) n
  obtain ⟨sights, side⟩ := related
  exact side.state

/-! ### Two replicas that lag differently -/

/-- The command stands in the log three times.  Both replicas know it the second time and
have forgotten it the third time, though not at the same times. -/
def alikeTicks : List Tick :=
  [⟨appendX, 1, 0, 0⟩, ⟨appendX, 2, 3000000000, 9000000000⟩,
    ⟨appendX, 3, 14000000000, 20000000000⟩]

theorem maps_equal_in_window_alike :
    (Server.ticksBy appendJson Tick.first {} alikeTicks).state.lookup "x" = some "aa" ∧
      (Server.ticksBy appendJson Tick.first {} alikeTicks).state =
        (Server.ticksBy appendJson Tick.second {} alikeTicks).state :=
  ⟨by decide +kernel, maps_equal_in_window appendJson ∅ ∅ 0 0 0 0 alikeTicks (by decide)
    (by decide +kernel) 3⟩

/-- The command stands in the log twice.  The first replica applies the entries
eleven seconds apart, the second one five seconds. -/
def laggingTicks : List Tick :=
  [⟨appendX, 1, 0, 0⟩, ⟨appendX, 2, 11000000000, 5000000000⟩]

/-- The first replica executes the repeated command again. -/
theorem clocks_split_replicas :
    (Server.ticksBy appendJson Tick.first {} laggingTicks).state.lookup "x" = some "aa" ∧
      (Server.ticksBy appendJson Tick.second {} laggingTicks).state.lookup "x" =
        some "a" := by
  decide +kernel

end DistribKV.KV
