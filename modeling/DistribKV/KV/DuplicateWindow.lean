import DistribKV.KV.DuplicateCache

/-!
# The window of duplicate detection

A request that comes again within ten seconds of its first occurrence, and before a hundred
others of its client, is answered with its first result.  If every repeated request comes
within this window, the map is what the requests make of it without the repeated ones.
-/

namespace DistribKV.KV

/-! ## Repeated requests -/

namespace Arrival

/-- Client and sequence number of a readable command. -/
def ids (json : Json) (arrival : Arrival) : Option (Int × Int) :=
  match deserializeCommand json arrival.command with
  | .error _ => none
  | .ok op => some (op.clientId, op.sequenceId)

/-- The pair that a request is known by.  Zeros stand for requests without one. -/
def key (json : Json) (arrival : Arrival) : Option (Int × Int) :=
  (arrival.ids json).filter fun (clientId, seqNum) => clientId ≠ 0 ∧ seqNum ≠ 0

theorem key_eq_some {json : Json} {arrival : Arrival} {key : Int × Int} :
    arrival.key json = some key ↔
      ∃ op, deserializeCommand json arrival.command = .ok op ∧ op.clientId = key.1 ∧
        op.sequenceId = key.2 ∧ key.1 ≠ 0 ∧ key.2 ≠ 0 := by
  unfold Arrival.key ids
  cases deserializeCommand json arrival.command with
  | error err => simp
  | ok op =>
      simp only [Option.filter_eq_some_iff, Option.some.injEq, decide_eq_true_eq,
        Except.ok.injEq, exists_eq_left']
      constructor
      · rintro ⟨rfl, identified⟩
        exact ⟨rfl, rfl, identified⟩
      · rintro ⟨client, seqNum, identified⟩
        exact ⟨Prod.ext client seqNum, identified⟩

theorem ids_of_key {json : Json} {arrival : Arrival} {key : Int × Int}
    (known : arrival.key json = some key) : arrival.ids json = some key :=
  (Option.filter_eq_some_iff.mp known).1

theorem key_of_ids {json : Json} {arrival : Arrival} {key : Int × Int}
    (known : arrival.ids json = some key) (identified : key.1 ≠ 0 ∧ key.2 ≠ 0) :
    arrival.key json = some key :=
  Option.filter_eq_some_iff.mpr ⟨known, decide_eq_true identified⟩

/-- The request was there before. -/
def Repeats (json : Json) (past : List Arrival) (arrival : Arrival) : Prop :=
  (arrival.key json).isSome ∧ ∃ earlier ∈ past, earlier.key json = arrival.key json

instance (json : Json) (past : List Arrival) (arrival : Arrival) :
    Decidable (arrival.Repeats json past) :=
  inferInstanceAs (Decidable (_ ∧ _))

theorem Repeats.mono {json : Json} {past more : List Arrival} {arrival : Arrival}
    (repeats : arrival.Repeats json past) (subset : past ⊆ more) : arrival.Repeats json more := by
  obtain ⟨known, earlier, mem, same⟩ := repeats
  exact ⟨known, earlier, subset mem, same⟩

/-- A request that was there before was there a first time. -/
theorem Repeats.exists_first {json : Json} {past : List Arrival} {arrival : Arrival}
    (repeats : arrival.Repeats json past) :
    ∃ before first between key, past = before ++ first :: between ∧
      first.key json = some key ∧ arrival.key json = some key ∧
      ¬ first.Repeats json before := by
  obtain ⟨known, earlier, mem, same⟩ := repeats
  obtain ⟨key, known⟩ := Option.isSome_iff_exists.mp known
  have found : (past.find? fun a => a.key json = some key).isSome := by
    rw [List.find?_isSome]
    exact ⟨earlier, mem, decide_eq_true (same.trans known)⟩
  obtain ⟨first, found⟩ := Option.isSome_iff_exists.mp found
  obtain ⟨here, before, between, split, none⟩ := List.find?_eq_some_iff_append.mp found
  have here := of_decide_eq_true here
  refine ⟨before, first, between, key, split, here, known, ?_⟩
  rintro ⟨-, other, mem, same⟩
  have missing := none other mem
  rw [same.trans here] at missing
  simp at missing

end Arrival

/-- Of messages at increasing times, those before one are earlier. -/
theorem Arrival.increasing_before {before after : List Arrival} {arrival : Arrival}
    (increasing : ((before ++ arrival :: after).map (·.now.time)).Pairwise (· < ·)) :
    (before.map (·.now.time)).Pairwise (· < ·) ∧
      ∀ earlier ∈ before, earlier.now.time ≤ arrival.now.time := by
  rw [List.map_append, List.map_cons, List.pairwise_append] at increasing
  obtain ⟨increasing, -, apart⟩ := increasing
  exact ⟨increasing, fun earlier mem =>
    (apart _ (List.mem_map_of_mem mem) _ List.mem_cons_self).le⟩

/-- The messages without those that repeat a request. -/
def withoutRepeats (json : Json) (past : List Arrival) : List Arrival → List Arrival
  | [] => []
  | arrival :: rest =>
      if arrival.Repeats json past then withoutRepeats json (past ++ [arrival]) rest
      else arrival :: withoutRepeats json (past ++ [arrival]) rest

/-- The other sequence numbers of a client among the requests with the given ids. -/
def otherSeqs (key : Int × Int) (ids : List (Int × Int)) : Finset Int :=
  (ids.filterMap fun (clientId, seqNum) =>
    if clientId = key.1 ∧ seqNum ≠ key.2 then some seqNum else none).toFinset

theorem mem_otherSeqs {key : Int × Int} {ids : List (Int × Int)} {seq : Int} :
    seq ∈ otherSeqs key ids ↔ (key.1, seq) ∈ ids ∧ seq ≠ key.2 := by
  simp only [otherSeqs, List.mem_toFinset, List.mem_filterMap, Option.ite_none_right_eq_some,
    Option.some.injEq, Prod.exists]
  constructor
  · rintro ⟨_, _, mem, ⟨rfl, other⟩, rfl⟩
    exact ⟨mem, other⟩
  · rintro ⟨mem, other⟩
    exact ⟨_, _, mem, ⟨rfl, other⟩, rfl⟩

/-- Every repeated request comes within ten seconds of its first occurrence, with fewer
than a hundred other sequence numbers of the client executed in between. -/
def InWindow (json : Json) (arrivals : List Arrival) : Prop :=
  ∀ before first between again after key,
    arrivals = before ++ first :: (between ++ again :: after) →
    first.key json = some key → again.key json = some key → ¬ first.Repeats json before →
    again.now.time - first.now.time ≤ duplicateCacheExpiry ∧
      (otherSeqs key ((withoutRepeats json (before ++ [first]) between).filterMap
        (Arrival.ids json))).card < maxDuplicateEntriesPerClient

theorem not_repeats_of_mem {json : Json} {past arrivals : List Arrival} {arrival : Arrival}
    (mem : arrival ∈ withoutRepeats json past arrivals) : ¬ arrival.Repeats json past := by
  induction arrivals generalizing past with
  | nil => cases mem
  | cons head rest ih =>
      have later : arrival ∈ withoutRepeats json (past ++ [head]) rest →
          ¬ arrival.Repeats json past :=
        fun mem repeats => ih mem (repeats.mono (List.subset_append_left _ _))
      unfold withoutRepeats at mem
      split at mem
      next => exact later mem
      next fresh =>
        rcases List.mem_cons.mp mem with rfl | mem
        · exact fresh
        · exact later mem

/-! ## Exactly once -/

namespace Server

/-- After some messages, the server executes the next one unless it is unreadable or
repeats a request. -/
def Faithful (json : Json) (s : Server) (before : List Arrival) (arrival : Arrival) : Prop :=
  (s.applyAll json before).1.files json arrival = none ↔
    arrival.ids json = none ∨ arrival.Repeats json before

def FaithfulOn (json : Json) (s : Server) (before arrivals : List Arrival) : Prop :=
  ∀ x y z, arrivals = x ++ y :: z → s.Faithful json (before ++ x) y

variable {json : Json} {s : Server}

theorem FaithfulOn.cons {before rest : List Arrival} {arrival : Arrival}
    (faithful : s.FaithfulOn json before (arrival :: rest)) :
    s.Faithful json before arrival ∧ s.FaithfulOn json (before ++ [arrival]) rest := by
  constructor
  · have here := faithful [] arrival rest rfl
    rwa [List.append_nil] at here
  · intro x y z split
    have later := faithful (arrival :: x) y z (by rw [split, List.cons_append])
    rwa [List.append_cons] at later

theorem FaithfulOn.left {before first rest : List Arrival}
    (faithful : s.FaithfulOn json before (first ++ rest)) : s.FaithfulOn json before first := by
  intro x y z split
  exact faithful x y (z ++ rest) (by rw [split, List.append_assoc, List.cons_append])

theorem FaithfulOn.append (first : List Arrival) {before rest : List Arrival}
    (faithful : s.FaithfulOn json before (first ++ rest)) :
    s.FaithfulOn json (before ++ first) rest := by
  intro x y z split
  have later := faithful (first ++ x) y z (by rw [split, List.append_assoc])
  rwa [← List.append_assoc] at later

theorem applyAll_snoc (json : Json) (s : Server) (before : List Arrival) (arrival : Arrival) :
    (s.applyAll json (before ++ [arrival])).1 =
      (s.applyAll json before).1.afterArrival json arrival := by
  rw [applyAll_append]
  rfl

/-- What is filed is what is left without the repeated requests. -/
theorem ids_filings {before arrivals : List Arrival}
    (faithful : s.FaithfulOn json before arrivals) :
    ((s.applyAll json before).1.filings json arrivals).map Filing.ids =
      (withoutRepeats json before arrivals).filterMap (Arrival.ids json) := by
  induction arrivals generalizing before with
  | nil => rfl
  | cons arrival rest ih =>
      obtain ⟨here, later⟩ := faithful.cons
      have rest := ih later
      rw [applyAll_snoc] at rest
      rw [filings, List.map_append, rest, withoutRepeats]
      cases filed : (s.applyAll json before).1.files json arrival with
      | none =>
          split
          next => rfl
          next fresh =>
            have unreadable := (here.mp filed).resolve_right fresh
            rw [List.filterMap_cons_none unreadable]
            rfl
      | some f =>
          have executed : ¬ (arrival.ids json = none ∨ arrival.Repeats json before) := by
            intro skipped
            rw [here.mpr skipped] at filed
            cases filed
          obtain ⟨op, decoded, rfl⟩ := eq_filing_of_files filed
          have ids : arrival.ids json = some (op.clientId, op.sequenceId) := by
            rw [Arrival.ids, decoded]
          rw [if_neg fun repeats => executed (.inr repeats), List.filterMap_cons_some ids]
          rfl

/-- The effect of a message on the map. -/
def applyArrival (json : Json) (s : Server) (arrival : Arrival) : Server :=
  match deserializeCommand json arrival.command with
  | .error _ => s
  | .ok op => (s.applyCommandLocked op).1

theorem applyArrival_congr {t : Server} (same : t.state = s.state) (arrival : Arrival) :
    (t.applyArrival json arrival).state = (s.applyArrival json arrival).state := by
  unfold applyArrival
  split
  · exact same
  · exact (applyCommandLocked_congr same _).1

theorem applyArrival_of_unreadable {arrival : Arrival} (unreadable : arrival.ids json = none) :
    s.applyArrival json arrival = s := by
  unfold Arrival.ids at unreadable
  unfold applyArrival
  cases decoded : deserializeCommand json arrival.command with
  | error err => rfl
  | ok op =>
      rw [decoded] at unreadable
      cases unreadable

/-- The map after a message. -/
theorem afterArrival_state (json : Json) (s : Server) (arrival : Arrival) :
    (s.afterArrival json arrival).state =
      if s.files json arrival = none then s.state
      else (s.applyArrival json arrival).state := by
  have handled := s.handles json arrival
  generalize s.afterArrival json arrival = next at handled
  generalize s.files json arrival = filed at handled
  generalize s.delivered json arrival = result at handled
  cases handled with
  | unreadable => rfl
  | answered => rfl
  | @executed op dropped decoded drops unknown =>
      have same : dropped.state = s.state := by
        rcases drops with rfl | rfl
        · rfl
        · exact s.getDuplicateLocked_state _ _ _
      rw [if_neg (Option.some_ne_none _), execute_state, applyArrival, decoded]
      exact (applyCommandLocked_congr same op).1

/-- The map is what the messages make of it without the repeated requests. -/
theorem state_of_faithful {before arrivals : List Arrival}
    (faithful : s.FaithfulOn json before arrivals) {t : Server}
    (same : t.state = (s.applyAll json before).1.state) :
    ((withoutRepeats json before arrivals).foldl (applyArrival json) t).state =
      (s.applyAll json (before ++ arrivals)).1.state := by
  induction arrivals generalizing before t with
  | nil =>
      rw [List.append_nil]
      exact same
  | cons arrival rest ih =>
      obtain ⟨here, later⟩ := faithful.cons
      have next := afterArrival_state json (s.applyAll json before).1 arrival
      rw [← applyAll_snoc] at next
      rw [List.append_cons before arrival rest, withoutRepeats]
      split
      next repeats =>
        rw [if_pos (here.mpr (.inr repeats))] at next
        exact ih later (same.trans next.symm)
      next fresh =>
        refine ih later (t := t.applyArrival json arrival) ?_
        rw [applyArrival_congr same, next]
        split
        next filed =>
          rw [applyArrival_of_unreadable ((here.mp filed).resolve_right fresh)]
        next => rfl

/-- At increasing times, what was filed since one filing was filed after it. -/
theorem seqsSince_subset_otherSeqs {before after : List Filing} {f : Filing}
    (increasing : ((before ++ f :: after).map (·.entry.timestamp)).Pairwise (· < ·)) :
    seqsSince (before ++ f :: after) f.clientId f.entry.timestamp ⊆
      insert f.sequenceId (otherSeqs f.ids (after.map Filing.ids)) := by
  rw [List.map_append, List.map_cons, List.pairwise_append] at increasing
  intro seq mem
  obtain ⟨entry, mem, since⟩ := mem_seqsSince.mp mem
  rw [Finset.mem_insert, or_iff_not_imp_left]
  intro other
  rcases List.mem_append.mp mem with earlier | later
  · have sooner := increasing.2.2 _ (List.mem_map_of_mem earlier) _ List.mem_cons_self
    exact absurd since sooner.not_ge
  · rcases List.mem_cons.mp later with same | later
    · exact absurd (congrArg Filing.sequenceId same) other
    · exact mem_otherSeqs.mpr ⟨List.mem_map_of_mem later, other⟩

/-- The first result of a request is still cached when it comes again within the window. -/
theorem cached_of_first (empty : s.duplicates = ∅) {before between : List Arrival}
    {first : Arrival} {now : Int} {key : Int × Int}
    (increasing : ((before ++ first :: between).map (·.now.time)).Pairwise (· < ·))
    (last : ∀ arrival ∈ before ++ first :: between, arrival.now.time ≤ now)
    (faithful : s.FaithfulOn json [] (before ++ first :: between))
    (known : first.key json = some key) (fresh : ¬ first.Repeats json before)
    (young : now - first.now.time ≤ duplicateCacheExpiry)
    (few : (otherSeqs key ((withoutRepeats json (before ++ [first]) between).filterMap
      (Arrival.ids json))).card < maxDuplicateEntriesPerClient) :
    ∃ entry, (s.applyAll json (before ++ first :: between)).1.cached key.1 key.2 = some entry ∧
      entry.expired now = false ∧
      (s.applyAll json before).1.delivered json first = some entry.result := by
  obtain ⟨here, later⟩ := (FaithfulOn.append before faithful).cons
  rw [List.nil_append] at here later
  have executed : (s.applyAll json before).1.files json first ≠ none := by
    intro skipped
    rcases here.mp skipped with unreadable | repeats
    · rw [Arrival.ids_of_key known] at unreadable
      cases unreadable
    · exact fresh repeats
  obtain ⟨f, filed⟩ := Option.ne_none_iff_exists'.mp executed
  obtain ⟨op, decoded, rfl⟩ := eq_filing_of_files filed
  obtain ⟨op', decoded', client, seqNum, identified⟩ := Arrival.key_eq_some.mp known
  rw [decoded] at decoded'
  cases decoded'
  have ids : (Filing.ids ((s.applyAll json before).1.filing op first.now.time)) = key :=
    Prod.ext client seqNum
  -- the filings before, at and after the first occurrence
  have remembers := Remembers.of_empty json empty (increasing.imp le_of_lt) last
  rw [filings_append, filings, filed, Option.toList_some, List.singleton_append,
    ← applyAll_snoc] at remembers
  have after := ids_filings later
  have times := increasing.sublist (filings_times json s (before ++ first :: between))
  rw [filings_append, filings, filed, Option.toList_some, List.singleton_append,
    ← applyAll_snoc] at times
  have since := (Finset.card_le_card (seqsSince_subset_otherSeqs times)).trans
    (Finset.card_insert_le _ _)
  rw [after, ids] at since
  have once : key ∉ (withoutRepeats json (before ++ [first]) between).filterMap
      (Arrival.ids json) := by
    intro mem
    obtain ⟨again, mem, same⟩ := List.mem_filterMap.mp mem
    have key := Arrival.key_of_ids same identified
    refine not_repeats_of_mem mem ⟨by rw [key]; rfl, first, by simp, ?_⟩
    rw [known, key]
  have held := remembers.kept _ ⟨_, _, rfl, by rwa [after, ids]⟩ (since.trans few) young
  refine ⟨_, ?_, Remembers.not_expired_of_le young, delivered_of_files filed⟩
  rw [← client, ← seqNum]
  exact held

/-- A request with a cached result is answered with that. -/
theorem delivered_of_cached {arrival : Arrival} {key : Int × Int} {entry : DuplicateEntry}
    (known : arrival.key json = some key) (held : s.cached key.1 key.2 = some entry)
    (live : entry.expired arrival.now.time = false) :
    s.delivered json arrival = some entry.result := by
  obtain ⟨op, decoded, client, seqNum, identified⟩ := Arrival.key_eq_some.mp known
  rw [← client, ← seqNum] at held identified
  have handled := s.handles json arrival
  generalize s.afterArrival json arrival = next at handled
  generalize s.files json arrival = filed at handled
  generalize s.delivered json arrival = result at handled
  cases handled with
  | unreadable unreadable =>
      rw [decoded] at unreadable
      cases unreadable
  | answered decoded' _ held' =>
      rw [decoded] at decoded'
      cases decoded'
      rw [held] at held'
      cases held'
      rfl
  | executed decoded' _ unknown =>
      rw [decoded] at decoded'
      cases decoded'
      rw [unknown identified entry held] at live
      cases live

/-- Within the window, the server takes the right decision on every message. -/
theorem faithfulOn_of_inWindow (empty : s.duplicates = ∅) {arrivals : List Arrival}
    (increasing : (arrivals.map (·.now.time)).Pairwise (· < ·)) (window : InWindow json arrivals) :
    s.FaithfulOn json [] arrivals := by
  intro before arrival after split
  rw [List.nil_append]
  -- on the number of messages before
  induction count : before.length using Nat.strong_induction_on generalizing before arrival after
    with
  | _ count ih =>
      subst count
      have faithful : s.FaithfulOn json [] before := by
        intro x y z inner
        rw [List.nil_append]
        refine ih x.length ?_ x y (z ++ arrival :: after) ?_ rfl
        · rw [inner, List.length_append, List.length_cons]
          omega
        · rw [split, inner, List.append_assoc, List.cons_append]
      rw [split] at increasing
      obtain ⟨increasing, last⟩ := Arrival.increasing_before increasing
      have handled := (s.applyAll json before).1.handles json arrival
      unfold Faithful
      generalize (s.applyAll json before).1.afterArrival json arrival = next at handled
      generalize (s.applyAll json before).1.files json arrival = filed at handled
      generalize (s.applyAll json before).1.delivered json arrival = result at handled
      cases handled with
      | unreadable decoded =>
          refine iff_of_true rfl (.inl ?_)
          rw [Arrival.ids, decoded]
      | @answered op entry decoded identified held live =>
          refine iff_of_true rfl (.inr ?_)
          have remembers := Remembers.of_empty json empty (increasing.imp le_of_lt) last
          obtain ⟨earlier, mem, op', decoded', client, seqNum, -⟩ :=
            exists_of_mem_filings (remembers.filed _ _ _ held).mem
          have key : arrival.key json = some (op.clientId, op.sequenceId) :=
            Arrival.key_eq_some.mpr ⟨op, decoded, rfl, rfl, identified⟩
          have key' : earlier.key json = some (op.clientId, op.sequenceId) :=
            Arrival.key_eq_some.mpr ⟨op', decoded', client.symm, seqNum.symm, identified⟩
          exact ⟨by rw [key]; rfl, earlier, mem, key'.trans key.symm⟩
      | @executed op dropped decoded drops unknown =>
          refine iff_of_false (Option.some_ne_none _) ?_
          rintro (unreadable | repeats)
          · rw [Arrival.ids, decoded] at unreadable
            cases unreadable
          · obtain ⟨earlier, first, between, key, inner, known, again, fresh⟩ :=
              repeats.exists_first
            obtain ⟨op', decoded', client, seqNum, identified⟩ := Arrival.key_eq_some.mp again
            rw [decoded] at decoded'
            cases decoded'
            obtain ⟨young, few⟩ := window earlier first between arrival after key
              (by rw [split, inner, List.append_assoc, List.cons_append]) known again fresh
            subst inner
            obtain ⟨entry, held, live, -⟩ :=
              cached_of_first empty increasing last faithful known fresh young few
            rw [← client, ← seqNum] at held identified
            rw [unknown identified entry held] at live
            cases live

/-- Duplicate detection is exactly once inside its window: for every server with nothing
cached and all messages at increasing times in which every repeated request comes within
ten seconds of its first occurrence, with fewer than a hundred other sequence numbers of
its client executed in between, the map at the end is what the operations make of it
without the repeated ones, and a repeated request is answered with its first result. -/
theorem exactly_once_in_window (json : Json) (empty : s.duplicates = ∅)
    {arrivals : List Arrival} (increasing : (arrivals.map (·.now.time)).Pairwise (· < ·))
    (window : InWindow json arrivals) :
    (s.applyAll json arrivals).1.state =
        ((withoutRepeats json [] arrivals).foldl (applyArrival json) s).state ∧
      ∀ before first between again after key,
        arrivals = before ++ first :: (between ++ again :: after) →
        first.key json = some key → again.key json = some key →
        ¬ first.Repeats json before →
        (s.applyAll json (before ++ first :: between)).1.delivered json again =
          (s.applyAll json before).1.delivered json first := by
  have faithful := faithfulOn_of_inWindow empty increasing window
  refine ⟨(state_of_faithful faithful rfl).symm, ?_⟩
  intro before first between again after key split known repeated fresh
  obtain ⟨young, few⟩ := window before first between again after key split known repeated fresh
  rw [← List.cons_append, ← List.append_assoc] at split
  rw [split] at faithful increasing
  obtain ⟨increasing, last⟩ := Arrival.increasing_before increasing
  obtain ⟨entry, held, live, delivers⟩ :=
    cached_of_first empty increasing last faithful.left known fresh young few
  rw [delivers]
  exact delivered_of_cached repeated held live

end Server

theorem length_withoutRepeats_le (json : Json) (past arrivals : List Arrival) :
    (withoutRepeats json past arrivals).length ≤ arrivals.length := by
  induction arrivals generalizing past with
  | nil => exact le_refl 0
  | cons arrival rest ih =>
      have shorter := ih (past ++ [arrival])
      unfold withoutRepeats
      split
      · exact shorter.trans (Nat.le_succ _)
      · exact Nat.succ_le_succ shorter

theorem card_otherSeqs_le (key : Int × Int) (ids : List (Int × Int)) :
    (otherSeqs key ids).card ≤ ids.length :=
  (List.toFinset_card_le _).trans (List.length_filterMap_le _ _)

/-- A hundred messages in ten seconds are within the window. -/
theorem inWindow_of_short {json : Json} {arrivals : List Arrival}
    (short : arrivals.length ≤ maxDuplicateEntriesPerClient)
    (young : ∀ first ∈ arrivals, ∀ again ∈ arrivals,
      again.now.time - first.now.time ≤ duplicateCacheExpiry) : InWindow json arrivals := by
  intro before first between again after key split _ _ _
  refine ⟨young first (by simp [split]) again (by simp [split]), ?_⟩
  have few := (card_otherSeqs_le key _).trans ((List.length_filterMap_le (Arrival.ids json) _).trans
    (length_withoutRepeats_le json (before ++ [first]) between))
  have fewer : between.length < arrivals.length := by
    rw [split]
    simp only [List.length_append, List.length_cons]
    omega
  omega

/-- A client sends a command three times within five seconds. -/
def threeTimes : List Arrival :=
  [⟨appendX, 1, 0⟩, ⟨appendX, 2, 2000000000⟩, ⟨appendX, 3, 5000000000⟩]

theorem exactly_once_in_window_thrice :
    (Server.applyAll appendJson {} threeTimes).1.state.lookup "x" = some "a" ∧
      (Server.applyAll appendJson {} threeTimes).1.state =
        ((withoutRepeats appendJson [] threeTimes).foldl (Server.applyArrival appendJson)
          {}).state ∧
      withoutRepeats appendJson [] threeTimes = [⟨appendX, 1, 0⟩] := by
  have window : InWindow appendJson threeTimes := inWindow_of_short (by decide) (by decide)
  refine ⟨by decide +kernel, ?_, by decide⟩
  exact (Server.exactly_once_in_window appendJson rfl (by decide) window).1

end DistribKV.KV
