import DistribKV.Consensus.Latest
import DistribKV.KV.SnapshotCut

/-!
# What the duplicate cache remembers

Every execution files its result under the client and the sequence number.  An entry
leaves the cache of `kv/apply.go` when it is ten seconds old, or when a hundred other
entries of its client that are not older push it out.  The cache is described by the list
of everything that was ever filed.
-/

namespace DistribKV.KV

open Consensus

/-! ## Eviction -/

namespace Server

/-- The search finds an entry that no other one of those it went through is older than. -/
theorem foldl_olderOf {clientMap : ClientMap} (seqs : List Int)
    (present : ∀ seq ∈ seqs, ∃ entry, clientMap.lookup seq = some entry) (nonempty : seqs ≠ []) :
    ∃ seq oldest, seqs.foldl (olderOf clientMap) none = some seq ∧
      clientMap.lookup seq = some oldest ∧
      ∀ other ∈ seqs, ∀ newer, clientMap.lookup other = some newer →
        oldest.timestamp ≤ newer.timestamp := by
  induction seqs using List.reverseRecOn with
  | nil => exact absurd rfl nonempty
  | append_singleton seqs seq ih =>
      obtain ⟨entry, here⟩ := present seq (by simp)
      rw [List.foldl_append, List.foldl_cons, List.foldl_nil]
      by_cases first : seqs = []
      · subst first
        refine ⟨seq, entry, rfl, here, fun other mem newer found => ?_⟩
        rw [List.nil_append, List.mem_singleton] at mem
        rw [mem, here] at found
        cases found
        exact le_refl _
      · obtain ⟨best, oldest, found, lookup, least⟩ :=
          ih (fun seq mem => present seq (List.mem_append_left _ mem)) first
        rw [found]
        simp only [olderOf, here, lookup]
        split
        next older =>
          refine ⟨seq, entry, rfl, here, fun other mem newer found => ?_⟩
          rcases List.mem_append.mp mem with before | last
          · exact older.le.trans (least other before newer found)
          · rw [List.mem_singleton.mp last, here] at found
            cases found
            exact le_refl _
        next notOlder =>
          refine ⟨best, oldest, rfl, lookup, fun other mem newer found => ?_⟩
          rcases List.mem_append.mp mem with before | last
          · exact least other before newer found
          · rw [List.mem_singleton.mp last, here] at found
            cases found
            exact Int.not_lt.mp notOlder

/-- Whatever the order of the search, no entry is older than the one it finds. -/
theorem oldestSeq_spec (order : List Int) {clientMap : ClientMap} {seqNum : Int}
    {entry : DuplicateEntry} (held : clientMap.lookup seqNum = some entry) :
    ∃ seq oldest, oldestSeq order clientMap = some seq ∧ clientMap.lookup seq = some oldest ∧
      ∀ other newer, clientMap.lookup other = some newer →
        oldest.timestamp ≤ newer.timestamp := by
  have listed : ∀ seq, seq ∈ order.filter (· ∈ clientMap.keys) ++ clientMap.keys.sort (· ≤ ·) ↔
      ∃ entry, clientMap.lookup seq = some entry := by
    intro seq
    rw [List.mem_append, List.mem_filter, decide_eq_true_eq, Finset.mem_sort,
      or_iff_right_of_imp And.right, Finmap.mem_keys, Finmap.mem_iff]
  obtain ⟨seq, oldest, found, lookup, least⟩ := foldl_olderOf _
    (fun seq mem => (listed seq).mp mem)
    (List.ne_nil_of_mem ((listed seqNum).mpr ⟨entry, held⟩))
  exact ⟨seq, oldest, found, lookup, fun other newer here =>
    least other ((listed other).mpr ⟨newer, here⟩) newer here⟩

/-- The sequence numbers of the entries that are not older than a time. -/
def notOlderSeqs (clientMap : ClientMap) (since : Int) : Finset Int :=
  clientMap.keys.filter fun seq =>
    (clientMap.lookup seq).any fun entry => since ≤ entry.timestamp

theorem mem_notOlderSeqs {clientMap : ClientMap} {since seq : Int} :
    seq ∈ notOlderSeqs clientMap since ↔
      ∃ entry, clientMap.lookup seq = some entry ∧ since ≤ entry.timestamp := by
  unfold notOlderSeqs
  rw [Finset.mem_filter, Finmap.mem_keys, Finmap.mem_iff]
  cases clientMap.lookup seq with
  | none => simp
  | some other => simp

/-- Dropping an entry that is older. -/
theorem notOlderSeqs_erase {clientMap : ClientMap} {seq since : Int} {old : DuplicateEntry}
    (lookup : clientMap.lookup seq = some old) (older : old.timestamp < since) :
    notOlderSeqs (clientMap.erase seq) since = notOlderSeqs clientMap since := by
  apply Finset.ext
  intro key
  rw [mem_notOlderSeqs, mem_notOlderSeqs]
  by_cases here : key = seq
  · subst here
    simp only [Finmap.lookup_erase, lookup, Option.some.injEq]
    constructor
    · rintro ⟨other, none, -⟩
      cases none
    · rintro ⟨other, rfl, after⟩
      exact absurd after older.not_ge
  · rw [Finmap.lookup_erase_ne here]

theorem card_keys_erase {clientMap : ClientMap} {seq : Int} {entry : DuplicateEntry}
    (lookup : clientMap.lookup seq = some entry) :
    (clientMap.erase seq).keys.card + 1 = clientMap.keys.card := by
  rw [Finmap.keys_erase]
  exact Finset.card_erase_add_one (Finmap.mem_keys.mpr (Finmap.mem_of_lookup_eq_some lookup))

/-- No entry is older than the oldest one. -/
theorem notOlderSeqs_of_least {clientMap : ClientMap} {since : Int}
    (least : ∀ seq entry, clientMap.lookup seq = some entry → since ≤ entry.timestamp) :
    notOlderSeqs clientMap since = clientMap.keys := by
  refine Finset.Subset.antisymm (Finset.filter_subset _ _) fun seq present => ?_
  obtain ⟨other, here⟩ := Finmap.mem_iff.mp (Finmap.mem_keys.mp present)
  exact mem_notOlderSeqs.mpr ⟨other, here, least seq other here⟩

/-- An entry outlives as many evictions as there are older entries. -/
theorem lookup_evict {order : List Int} {clientMap : ClientMap} {rounds : Nat} {seqNum : Int}
    {entry : DuplicateEntry} (held : clientMap.lookup seqNum = some entry)
    (spared : rounds + (notOlderSeqs clientMap entry.timestamp).card ≤ clientMap.keys.card) :
    (evict order clientMap rounds).lookup seqNum = some entry := by
  induction rounds generalizing clientMap with
  | zero => exact held
  | succ rounds ih =>
      obtain ⟨seq, oldest, found, lookup, least⟩ := oldestSeq_spec order held
      -- an oldest entry of the same age would leave none that is older
      have older : oldest.timestamp < entry.timestamp := by
        by_contra notOlder
        have all := notOlderSeqs_of_least fun key other here =>
          (Int.not_lt.mp notOlder).trans (least key other here)
        rw [all] at spared
        omega
      have other : seqNum ≠ seq := by
        rintro rfl
        rw [held] at lookup
        cases lookup
        exact lt_irrefl _ older
      have same := notOlderSeqs_erase lookup older
      have size := card_keys_erase lookup
      simp only [evict, found]
      apply ih
      · rw [Finmap.lookup_erase_ne other]
        exact held
      · rw [same]
        omega

/-- The cap spares an entry as long as no more entries than that are not older. -/
theorem lookup_evict_of_few {order : List Int} {clientMap : ClientMap} {seqNum : Int}
    {entry : DuplicateEntry} (held : clientMap.lookup seqNum = some entry)
    (few : (notOlderSeqs clientMap entry.timestamp).card ≤ maxDuplicateEntriesPerClient) :
    (evict order clientMap (clientMap.keys.card - maxDuplicateEntriesPerClient)).lookup seqNum =
      some entry := by
  have part : (notOlderSeqs clientMap entry.timestamp).card ≤ clientMap.keys.card :=
    Finset.card_le_card (Finset.filter_subset _ _)
  exact lookup_evict held (by omega)

end Server

/-! ## Everything that was filed -/

/-- A result that was filed for a request. -/
structure Filing where
  clientId : Int
  sequenceId : Int
  entry : DuplicateEntry
  deriving DecidableEq, Repr

namespace Filing

/-- Client and sequence number. -/
def ids (f : Filing) : Int × Int := (f.clientId, f.sequenceId)

end Filing

/-- The sequence numbers under which something was filed for a client since a time. -/
def seqsSince (log : List Filing) (clientId since : Int) : Finset Int :=
  (log.filterMap fun f =>
    if f.clientId = clientId ∧ since ≤ f.entry.timestamp then some f.sequenceId
    else none).toFinset

theorem mem_seqsSince {log : List Filing} {clientId since seq : Int} :
    seq ∈ seqsSince log clientId since ↔
      ∃ entry, ⟨clientId, seq, entry⟩ ∈ log ∧ since ≤ entry.timestamp := by
  simp only [seqsSince, List.mem_toFinset, List.mem_filterMap, Option.ite_none_right_eq_some,
    Option.some.injEq]
  constructor
  · rintro ⟨⟨_, _, entry⟩, mem, ⟨rfl, since⟩, rfl⟩
    exact ⟨entry, mem, since⟩
  · rintro ⟨entry, mem, since⟩
    exact ⟨_, mem, ⟨rfl, since⟩, rfl⟩

theorem seqsSince_subset {log more : List Filing} (subset : log ⊆ more) (clientId since : Int) :
    seqsSince log clientId since ⊆ seqsSince more clientId since := by
  intro seq mem
  obtain ⟨entry, filed, since⟩ := mem_seqsSince.mp mem
  exact mem_seqsSince.mpr ⟨entry, subset filed, since⟩

namespace Server

/-- The cached result of a request, expired or not. -/
def cached (s : Server) (clientId seqNum : Int) : Option DuplicateEntry :=
  (s.duplicates.lookup clientId).bind (·.lookup seqNum)

theorem lookup_liveOf (s : Server) (now clientId seqNum : Int) :
    (s.liveOf now clientId).lookup seqNum =
      (s.cached clientId seqNum).bind fun entry =>
        if entry.expired now then none else some entry := by
  unfold liveOf ClientMap.live cached
  rw [Finmap.lookup_filterMap]
  cases s.duplicates.lookup clientId <;> simp

/-- The lookup drops an entry only if it has expired. -/
theorem cached_getDuplicateLocked (s : Server) (clientId seqNum now other seq : Int)
    (entry : DuplicateEntry) :
    ((s.getDuplicateLocked clientId seqNum now).1.cached other seq = some entry →
        s.cached other seq = some entry) ∧
      (s.cached other seq = some entry → entry.expired now = false →
        (s.getDuplicateLocked clientId seqNum now).1.cached other seq = some entry) := by
  unfold getDuplicateLocked
  split
  · exact ⟨id, fun held _ => held⟩
  next clientMap client =>
    split
    · exact ⟨id, fun held _ => held⟩
    next old found =>
      split
      next expired =>
        unfold cached
        by_cases same : other = clientId
        · subst same
          simp only [Finmap.lookup_insert, Option.bind_some, client]
          by_cases here : seq = seqNum
          · subst here
            rw [Finmap.lookup_erase, found]
            refine ⟨(fun none => nomatch none), fun held live => ?_⟩
            cases held
            rw [expired] at live
            cases live
          · rw [Finmap.lookup_erase_ne here]
            exact ⟨id, fun held _ => held⟩
        · rw [Finmap.lookup_insert_of_ne _ same]
          exact ⟨id, fun held _ => held⟩
      · exact ⟨id, fun held _ => held⟩

/-- A lookup that finds an entry drops none. -/
theorem getDuplicateLocked_found {s s' : Server} {clientId seqNum now : Int}
    {entry : DuplicateEntry}
    (looked : s.getDuplicateLocked clientId seqNum now = (s', some entry)) : s' = s := by
  unfold getDuplicateLocked at looked
  split at looked
  · cases looked
  · split at looked
    · cases looked
    · split at looked
      · cases looked
      · cases looked
        rfl

/-- The filing of an execution. -/
def filing (s : Server) (op : Op) (now : Int) : Filing where
  clientId := op.clientId
  sequenceId := op.sequenceId
  entry := ⟨(s.applyCommandLocked op).2, now⟩

theorem cached_execute (s : Server) (op : Op) (index : Nat) (now : Moment)
    (clientId seqNum : Int) :
    (s.execute op index now).server.cached clientId seqNum =
      if clientId = op.clientId then (s.remembered op now).lookup seqNum
      else s.cached clientId seqNum := by
  unfold cached
  rw [execute_duplicates]
  split
  next same => rw [same, Finmap.lookup_insert, Option.bind_some]
  next other => rw [Finmap.lookup_insert_of_ne _ other]

/-- What the cap chooses from: the new result, and the old ones that have not expired. -/
theorem lookup_candidates (s : Server) (op : Op) (now seqNum : Int) (entry : DuplicateEntry) :
    ((s.liveOf now op.clientId).insert op.sequenceId
        ⟨(s.applyCommandLocked op).2, now⟩).lookup seqNum = some entry ↔
      if seqNum = op.sequenceId then entry = (s.filing op now).entry
      else s.cached op.clientId seqNum = some entry ∧ entry.expired now = false := by
  split
  next same => rw [same, Finmap.lookup_insert, Option.some.injEq, eq_comm]; rfl
  next other =>
    rw [Finmap.lookup_insert_of_ne _ other, lookup_liveOf, Option.bind_eq_some_iff]
    constructor
    · rintro ⟨old, held, live⟩
      split at live
      · cases live
      next fresh =>
        cases live
        exact ⟨held, Bool.eq_false_iff.mpr fresh⟩
    · rintro ⟨held, fresh⟩
      exact ⟨entry, held, by rw [if_neg (Bool.eq_false_iff.mp fresh)]⟩

/-- What the cache holds was filed last under its ids; and what was filed last is in the
cache as long as it is not expired and the client has no more sequence numbers than the cap
that were filed at its time or later. -/
structure Remembers (log : List Filing) (clock : Int) (s : Server) : Prop where
  filed : ∀ clientId seqNum entry, s.cached clientId seqNum = some entry →
    Latest Filing.ids log ⟨clientId, seqNum, entry⟩
  kept : ∀ f, Latest Filing.ids log f →
    (seqsSince log f.clientId f.entry.timestamp).card ≤ maxDuplicateEntriesPerClient →
    clock - f.entry.timestamp ≤ duplicateCacheExpiry →
    s.cached f.clientId f.sequenceId = some f.entry

namespace Remembers

variable {log : List Filing} {clock : Int} {s : Server}

/-- A cache is described by a list of what it holds. -/
theorem of_cached (listed : ∀ f : Filing, f ∈ log ↔
      s.cached f.clientId f.sequenceId = some f.entry) (clock : Int) : Remembers log clock s where
  filed clientId seqNum entry held := by
    obtain ⟨⟨_, _, entry'⟩, latest, same⟩ :=
      Latest.exists_of_mem Filing.ids ((listed ⟨clientId, seqNum, entry⟩).mpr held)
    cases same
    have held' := (listed _).mp latest.mem
    rw [held] at held'
    cases held'
    exact latest
  kept f latest _ _ := (listed f).mp latest.mem

/-- Time passes. -/
theorem later {now : Int} (remembers : Remembers log clock s) (le : clock ≤ now) :
    Remembers log now s := by
  refine ⟨remembers.filed, fun f latest few young => ?_⟩
  exact remembers.kept f latest few (by omega)

theorem not_expired_of_le {now : Int} {entry : DuplicateEntry}
    (young : now - entry.timestamp ≤ duplicateCacheExpiry) : entry.expired now = false :=
  decide_eq_false (Int.not_lt.mpr young)

theorem getDuplicateLocked (remembers : Remembers log clock s) (clientId seqNum : Int) :
    Remembers log clock (s.getDuplicateLocked clientId seqNum clock).1 := by
  constructor
  · intro other seq entry held
    exact remembers.filed other seq entry
      ((s.cached_getDuplicateLocked clientId seqNum clock other seq entry).1 held)
  · intro f latest few young
    exact (s.cached_getDuplicateLocked clientId seqNum clock _ _ _).2
      (remembers.kept f latest few young) (not_expired_of_le young)

variable {now : Moment}

/-- What an execution chooses from was filed last, by itself or before. -/
theorem candidate_filed (remembers : Remembers log clock s) {op : Op} {time seqNum : Int}
    {entry : DuplicateEntry}
    (found : ((s.liveOf time op.clientId).insert op.sequenceId
      ⟨(s.applyCommandLocked op).2, time⟩).lookup seqNum = some entry) :
    Latest Filing.ids (log ++ [s.filing op time]) ⟨op.clientId, seqNum, entry⟩ := by
  rw [lookup_candidates] at found
  split at found
  next here =>
    subst here found
    exact Latest.snoc _ _ _
  next other =>
    refine (Latest.snoc_of_ne fun same => ?_).mpr (remembers.filed _ _ _ found.1)
    exact other (congrArg Prod.snd same)

/-- What an execution chooses from is kept, unless too much is filed that is not older. -/
theorem cached_candidate (remembers : Remembers log now.time s) (op : Op) (index : Nat)
    {seqNum : Int} {entry : DuplicateEntry}
    (found : ((s.liveOf now.time op.clientId).insert op.sequenceId
      ⟨(s.applyCommandLocked op).2, now.time⟩).lookup seqNum = some entry)
    (few : (seqsSince (log ++ [s.filing op now.time]) op.clientId entry.timestamp).card ≤
      maxDuplicateEntriesPerClient) :
    (s.execute op index now).server.cached op.clientId seqNum = some entry := by
  rw [cached_execute, if_pos rfl]
  refine lookup_evict_of_few found ((Finset.card_le_card fun seq mem => ?_).trans few)
  obtain ⟨other, here, notOlder⟩ := mem_notOlderSeqs.mp mem
  exact mem_seqsSince.mpr ⟨other, (remembers.candidate_filed here).mem, notOlder⟩

theorem execute (remembers : Remembers log now.time s) (op : Op) (index : Nat) :
    Remembers (log ++ [s.filing op now.time]) now.time (s.execute op index now).server := by
  constructor
  · intro clientId seqNum entry held
    rw [cached_execute] at held
    split at held
    next same =>
      subst same
      exact remembers.candidate_filed (lookup_of_lookup_evict held)
    next other =>
      refine (Latest.snoc_of_ne fun same => ?_).mpr (remembers.filed _ _ _ held)
      exact other (congrArg Prod.fst same)
  · intro f latest few young
    by_cases own : f.ids = (s.filing op now.time).ids
    · cases latest.eq (Latest.snoc _ _ _) own
      exact remembers.cached_candidate op index (Finmap.lookup_insert _) few
    · have before := (Latest.snoc_of_ne own).mp latest
      have held : s.cached f.clientId f.sequenceId = some f.entry := by
        refine remembers.kept f before ?_ young
        exact (Finset.card_le_card
          (seqsSince_subset (List.subset_append_left _ _) _ _)).trans few
      by_cases client : f.clientId = op.clientId
      · have other : f.sequenceId ≠ op.sequenceId := fun same => own (Prod.ext client same)
        rw [client] at held few ⊢
        refine remembers.cached_candidate op index ?_ few
        rw [lookup_candidates, if_neg other]
        exact ⟨held, not_expired_of_le young⟩
      · rw [cached_execute, if_neg client]
        exact held

end Remembers

/-! ## Runs -/

/-- What processing a message files. -/
def files (json : Json) (s : Server) (arrival : Arrival) : Option Filing :=
  match deserializeCommand json arrival.command with
  | .error _ => none
  | .ok op =>
      if s.Suppresses op arrival.now.time then none else some (s.filing op arrival.now.time)

/-- The server after a message. -/
def afterArrival (json : Json) (s : Server) (arrival : Arrival) : Server :=
  (s.processApplyMsg json arrival.now (.command arrival.command arrival.index)).server

/-- The result that is delivered for a message. -/
def delivered (json : Json) (s : Server) (arrival : Arrival) : Option Result :=
  (s.processApplyMsg json arrival.now (.command arrival.command arrival.index)).notified.map
    Prod.snd

/-- Everything that a run files. -/
def filings (json : Json) (s : Server) : List Arrival → List Filing
  | [] => []
  | arrival :: rest =>
      (s.files json arrival).toList ++ (s.afterArrival json arrival).filings json rest

variable {json : Json} {s : Server}

theorem filings_append (json : Json) (s : Server) (before after : List Arrival) :
    s.filings json (before ++ after) =
      s.filings json before ++ (s.applyAll json before).1.filings json after := by
  induction before generalizing s with
  | nil => rfl
  | cons arrival rest ih =>
      simp only [List.cons_append, filings, ih, applyAll, List.append_assoc]
      rfl

/-- The three ways of a message: it is unreadable, answered from the cache or executed.
With the server after it, what it files and the result that is delivered. -/
inductive Handles (json : Json) (s : Server) (arrival : Arrival) :
    Server → Option Filing → Option Result → Prop where
  | unreadable {err : String} (decoded : deserializeCommand json arrival.command = .error err) :
      Handles json s arrival s none (some { err := some err })
  | answered {op : Op} {entry : DuplicateEntry}
      (decoded : deserializeCommand json arrival.command = .ok op)
      (identified : op.clientId ≠ 0 ∧ op.sequenceId ≠ 0)
      (held : s.cached op.clientId op.sequenceId = some entry)
      (fresh : entry.expired arrival.now.time = false) :
      Handles json s arrival s none (some entry.result)
  | executed {op : Op} {dropped : Server}
      (decoded : deserializeCommand json arrival.command = .ok op)
      (drops : dropped = s ∨
        dropped = (s.getDuplicateLocked op.clientId op.sequenceId arrival.now.time).1)
      (unknown : op.clientId ≠ 0 ∧ op.sequenceId ≠ 0 → ∀ entry,
        s.cached op.clientId op.sequenceId = some entry → entry.expired arrival.now.time = true) :
      Handles json s arrival (dropped.execute op arrival.index arrival.now).server
        (some (s.filing op arrival.now.time)) (some (s.applyCommandLocked op).2)

theorem handles (json : Json) (s : Server) (arrival : Arrival) :
    Handles json s arrival (s.afterArrival json arrival) (s.files json arrival)
      (s.delivered json arrival) := by
  unfold afterArrival files delivered
  cases decoded : deserializeCommand json arrival.command with
  | error err =>
      simp only [processApplyMsg, decoded]
      exact .unreadable decoded
  | ok op =>
      have found := s.getDuplicateLocked_snd op.clientId op.sequenceId arrival.now.time
      have same := s.getDuplicateLocked_state op.clientId op.sequenceId arrival.now.time
      rw [lookup_liveOf] at found
      simp only [processApplyMsg, decoded]
      by_cases identified : op.clientId ≠ 0 ∧ op.sequenceId ≠ 0
      · rw [if_pos identified]
        cases looked : s.getDuplicateLocked op.clientId op.sequenceId arrival.now.time with
        | mk dropped dup =>
            rw [looked] at found same
            cases dup with
            | some entry =>
                have suppresses : s.Suppresses op arrival.now.time :=
                  ⟨identified.1, identified.2, by rw [looked]; rfl⟩
                obtain ⟨old, held, live⟩ := Option.bind_eq_some_iff.mp found.symm
                split at live
                · cases live
                next fresh =>
                  cases live
                  rw [if_pos suppresses, getDuplicateLocked_found looked]
                  exact .answered decoded identified held (Bool.eq_false_iff.mpr fresh)
            | none =>
                have executes : ¬ s.Suppresses op arrival.now.time := by
                  rintro ⟨-, -, hit⟩
                  rw [looked] at hit
                  cases hit
                have unknown : ∀ entry, s.cached op.clientId op.sequenceId = some entry →
                    entry.expired arrival.now.time = true := by
                  intro entry held
                  rw [held, Option.bind_some] at found
                  split at found
                  next expired => exact expired
                  next => cases found
                have executed := Handles.executed decoded (.inr rfl) fun _ => unknown
                rw [looked, ← (applyCommandLocked_congr same op).2] at executed
                rw [if_neg executes]
                exact executed
      · have executes : ¬ s.Suppresses op arrival.now.time :=
          fun hit => identified ⟨hit.1, hit.2.1⟩
        rw [if_neg identified, if_neg executes]
        exact .executed decoded (.inl rfl) fun known => absurd known identified

theorem eq_filing_of_files {arrival : Arrival} {f : Filing}
    (filed : s.files json arrival = some f) :
    ∃ op, deserializeCommand json arrival.command = .ok op ∧
      f = s.filing op arrival.now.time := by
  unfold files at filed
  split at filed
  · cases filed
  next op decoded =>
    split at filed
    · cases filed
    · cases filed
      exact ⟨op, decoded, rfl⟩

/-- What is filed is delivered. -/
theorem delivered_of_files {arrival : Arrival} {f : Filing}
    (filed : s.files json arrival = some f) :
    s.delivered json arrival = some f.entry.result := by
  have handled := s.handles json arrival
  rw [filed] at handled
  generalize s.afterArrival json arrival = next at handled
  generalize s.delivered json arrival = result at handled
  cases handled with
  | executed => rfl

/-- What is filed belongs to a message. -/
theorem exists_of_mem_filings {arrivals : List Arrival} {f : Filing}
    (mem : f ∈ s.filings json arrivals) :
    ∃ arrival ∈ arrivals, ∃ op, deserializeCommand json arrival.command = .ok op ∧
      f.clientId = op.clientId ∧ f.sequenceId = op.sequenceId ∧
      f.entry.timestamp = arrival.now.time := by
  induction arrivals generalizing s with
  | nil => cases mem
  | cons arrival rest ih =>
      rcases List.mem_append.mp mem with first | later
      · rw [Option.mem_toList] at first
        obtain ⟨op, decoded, rfl⟩ := eq_filing_of_files first
        exact ⟨arrival, List.mem_cons_self, op, decoded, rfl, rfl, rfl⟩
      · obtain ⟨found, mem, rest⟩ := ih later
        exact ⟨found, List.mem_cons_of_mem _ mem, rest⟩

/-- Filings carry the times of the messages they belong to, in order. -/
theorem filings_times (json : Json) (s : Server) (arrivals : List Arrival) :
    ((s.filings json arrivals).map (·.entry.timestamp)).Sublist (arrivals.map (·.now.time)) := by
  induction arrivals generalizing s with
  | nil => exact .slnil
  | cons arrival rest ih =>
      have later := ih (s.afterArrival json arrival)
      cases filed : s.files json arrival with
      | none =>
          rw [filings, filed]
          exact later.cons _
      | some f =>
          obtain ⟨op, -, rfl⟩ := eq_filing_of_files filed
          rw [filings, filed]
          exact later.cons_cons _

namespace Remembers

variable {log : List Filing} {clock now : Int}

theorem afterArrival (json : Json) (remembers : Remembers log clock s) {arrival : Arrival}
    (after : clock ≤ arrival.now.time) :
    Remembers (log ++ (s.files json arrival).toList) arrival.now.time
      (s.afterArrival json arrival) := by
  have current := remembers.later after
  have handled := s.handles json arrival
  generalize s.afterArrival json arrival = next at handled
  generalize s.files json arrival = filed at handled
  generalize s.delivered json arrival = result at handled
  cases handled with
  | unreadable => rwa [Option.toList_none, List.append_nil]
  | answered => rwa [Option.toList_none, List.append_nil]
  | @executed op dropped decoded drops unknown =>
      rcases drops with rfl | rfl
      · exact current.execute op arrival.index
      · have executed := (current.getDuplicateLocked op.clientId op.sequenceId).execute op
          arrival.index
        have same := s.getDuplicateLocked_state op.clientId op.sequenceId arrival.now.time
        rw [filing, (applyCommandLocked_congr same op).2] at executed
        exact executed

theorem applyAll (remembers : Remembers log clock s) {arrivals : List Arrival}
    (rising : (clock :: arrivals.map (·.now.time)).Pairwise (· ≤ ·)) (le : clock ≤ now)
    (last : ∀ arrival ∈ arrivals, arrival.now.time ≤ now) :
    Remembers (log ++ s.filings json arrivals) now (s.applyAll json arrivals).1 := by
  induction arrivals generalizing s log clock with
  | nil =>
      rw [filings, List.append_nil]
      exact remembers.later le
  | cons arrival rest ih =>
      obtain ⟨first, rising⟩ := List.pairwise_cons.mp rising
      have next := remembers.afterArrival json (first arrival.now.time List.mem_cons_self)
      have run := ih next rising (last arrival List.mem_cons_self)
        fun other mem => last other (List.mem_cons_of_mem _ mem)
      rw [List.append_assoc] at run
      exact run

/-- A run of a server that has nothing cached. -/
theorem of_empty (json : Json) (empty : s.duplicates = ∅) {arrivals : List Arrival}
    (rising : (arrivals.map (·.now.time)).Pairwise (· ≤ ·))
    (last : ∀ arrival ∈ arrivals, arrival.now.time ≤ now) :
    Remembers (s.filings json arrivals) now (s.applyAll json arrivals).1 := by
  have nothing : ∀ clock, Remembers [] clock s :=
    of_cached fun f => by simp [cached, empty]
  cases arrivals with
  | nil => exact nothing now
  | cons arrival rest =>
      refine (nothing arrival.now.time).applyAll ?_ (last arrival List.mem_cons_self) last
      refine List.pairwise_cons.mpr ⟨fun time mem => ?_, rising⟩
      rcases List.mem_cons.mp mem with rfl | later
      · exact le_rfl
      · exact (List.pairwise_cons.mp rising).1 time later

end Remembers

end Server

end DistribKV.KV
