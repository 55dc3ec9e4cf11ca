import DistribKV.KV.Answers
import DistribKV.KV.DuplicateCache
import Mathlib.Order.Lattice.Nat

/-!
# How much a server remembers

A server keeps three kinds of things that clients make it keep: waiters, results that
nobody has asked for yet, and cached results of clients with ids.  The first two are
bounded by the configured number of pending operations, the last one by a hundred for
each client.  The loops that drop entries always come to an end, whichever entries the
maps offer them.
-/

namespace Finmap

variable {κ α : Type} [DecidableEq κ]

theorem keys_insert (m : Finmap fun _ : κ => α) (key : κ) (value : α) :
    (m.insert key value).keys = Insert.insert key m.keys := by
  ext other
  simp [mem_keys]

theorem card_keys_insert_le (m : Finmap fun _ : κ => α) (key : κ) (value : α) :
    (m.insert key value).keys.card ≤ m.keys.card + 1 := by
  rw [keys_insert]
  exact Finset.card_insert_le _ _

theorem card_keys_erase_le (m : Finmap fun _ : κ => α) (key : κ) :
    (m.erase key).keys.card ≤ m.keys.card := by
  rw [keys_erase]
  exact Finset.card_erase_le

end Finmap

namespace DistribKV.KV

open Consensus

/-! ## The duplicate cache -/

/-- No client has more cached results than the cap. -/
def Capped (duplicates : Finmap fun _ : Int => ClientMap) : Prop :=
  ∀ clientId clientMap, duplicates.lookup clientId = some clientMap →
    clientMap.keys.card ≤ maxDuplicateEntriesPerClient

theorem Capped.insert {duplicates : Finmap fun _ : Int => ClientMap} {clientId : Int}
    {clientMap : ClientMap}
    (others : ∀ other clientMap, other ≠ clientId → duplicates.lookup other = some clientMap →
      clientMap.keys.card ≤ maxDuplicateEntriesPerClient)
    (small : clientMap.keys.card ≤ maxDuplicateEntriesPerClient) :
    Capped (duplicates.insert clientId clientMap) := by
  intro other found lookup
  by_cases own : other = clientId
  · rw [own, Finmap.lookup_insert] at lookup
    cases lookup
    exact small
  · rw [Finmap.lookup_insert_of_ne _ own] at lookup
    exact others other found own lookup

namespace Server

/-- Every round of the eviction drops an entry, as long as there is one. -/
theorem card_evict (order : List Int) (clientMap : ClientMap) (rounds : Nat) :
    (evict order clientMap rounds).keys.card ≤ clientMap.keys.card - rounds := by
  induction rounds generalizing clientMap with
  | zero => exact le_rfl
  | succ rounds ih =>
      rcases Finset.eq_empty_or_nonempty clientMap.keys with empty | ⟨key, member⟩
      · have nothing : oldestSeq order clientMap = none := by simp [oldestSeq, empty]
        simp [evict, nothing, empty]
      · obtain ⟨entry, held⟩ := Finmap.mem_iff.mp (Finmap.mem_keys.mp member)
        obtain ⟨seq, oldest, found, lookup, -⟩ := oldestSeq_spec order held
        have size := card_keys_erase lookup
        have rest := ih (clientMap.erase seq)
        simp only [evict, found]
        omega

theorem capped_cleanup {s : Server} {clientId : Int} {now : Moment}
    (others : ∀ other clientMap, other ≠ clientId → s.duplicates.lookup other = some clientMap →
      clientMap.keys.card ≤ maxDuplicateEntriesPerClient) :
    Capped (s.cleanupDuplicateCacheLocked clientId now).duplicates := by
  unfold cleanupDuplicateCacheLocked
  cases held : s.duplicates.lookup clientId with
  | none =>
      intro other clientMap lookup
      refine others other clientMap ?_ lookup
      rintro rfl
      rw [held] at lookup
      cases lookup
  | some clientMap =>
      refine Capped.insert others ((card_evict _ _ _).trans ?_)
      omega

theorem capped_getDuplicate {s : Server} (capped : Capped s.duplicates)
    (clientId seqNum now : Int) :
    Capped (s.getDuplicateLocked clientId seqNum now).1.duplicates := by
  unfold getDuplicateLocked
  split
  · exact capped
  next clientMap held =>
    split
    · exact capped
    · split
      · refine Capped.insert (fun other map _ lookup => capped other map lookup) ?_
        exact (Finmap.card_keys_erase_le _ _).trans (capped clientId clientMap held)
      · exact capped

/-- Whatever is filed, the cleanup that follows brings the client back under the cap. -/
theorem capped_execute {s : Server} (capped : Capped s.duplicates) (op : Op) (index : Nat)
    (now : Moment) : Capped (s.execute op index now).server.duplicates := by
  apply capped_cleanup
  intro other clientMap different lookup
  simp only [saveDuplicateLocked] at lookup
  rw [Finmap.lookup_insert_of_ne _ different] at lookup
  have kept := applyCommandLocked_duplicates s op
  exact capped other clientMap (kept ▸ lookup)

/-- A message brings no cache above the cap. -/
def Portable (json : Json) : ApplyMsg → Prop
  | .snapshot data _ _ => ∀ state dedup, deserializeSnapshot json data = .ok (state, dedup) →
      Capped dedup
  | .command _ _ => True

theorem capped_processApplyMsg {s : Server} {json : Json} {msg : ApplyMsg}
    (capped : Capped s.duplicates) (portable : Portable json msg) (now : Moment) :
    Capped (s.processApplyMsg json now msg).server.duplicates := by
  cases msg with
  | snapshot data index term =>
      simp only [processApplyMsg, handleSnapshotMsg]
      split
      · exact capped
      next state dedup decoded => exact portable state dedup decoded
  | command command index =>
      simp only [processApplyMsg]
      split
      · exact capped
      next op decoded =>
        split
        · have after := capped_getDuplicate capped op.clientId op.sequenceId now.time
          split
          next found =>
            rw [found] at after
            exact after
          next missing =>
            rw [missing] at after
            exact capped_execute after op index now
        · exact capped_execute capped op index now

end Server

/-! ## Waiters and results -/

namespace Handlers

variable {json : Json} {s s' : Handlers} {a : HandlerAction}

/-- The server proper looks into its cache, or applies a message. -/
theorem server_cases (stepped : s.step json a = some s') :
    s'.server = s.server ∨ (∃ op now, s'.server = (findDuplicate s.server op now).1) ∨
      ∃ msg now, a = .apply msg now ∧
        s'.server = (s.server.processApplyMsg json now msg).server := by
  cases a with
  | submit call op encodeErr now =>
      simp only [step] at stepped
      split at stepped
      · cases stepped
        exact .inl rfl
      · split at stepped
        · cases stepped
          exact .inr (.inl ⟨op, now, rfl⟩)
        · cases stepped
          exact .inr (.inl ⟨op, now, rfl⟩)
      · cases stepped
  | apply msg now => exact .inr (.inr ⟨msg, now, rfl, (server_of_apply stepped).1⟩)
  | _ =>
      left
      cases effect_of_step stepped
      all_goals first
        | rfl
        | (unfold kill; split <;> rfl)

/-- The loop ends with a map that is small enough. -/
theorem card_evict_le {maxPending : Nat} {evicted : List Nat}
    {before after : Finmap fun _ : Nat => Result}
    (ended : evict maxPending before evicted = some after) :
    after.keys.card ≤ maxPending := by
  induction evicted generalizing before with
  | nil =>
      simp only [evict] at ended
      split at ended
      · cases ended
      next small =>
        cases ended
        omega
  | cons idx rest ih =>
      simp only [evict] at ended
      split at ended
      · exact ih ended
      · cases ended

/-- The keys that so many rounds of the loop delete, if the map offers `offer`. -/
def offered (offer : (Finmap fun _ : Nat => Result) → Nat)
    (recent : Finmap fun _ : Nat => Result) : Nat → List Nat
  | 0 => []
  | rounds + 1 => offer recent :: offered offer (recent.erase (offer recent)) rounds

/-- Whichever of its keys the map offers, the loop ends. -/
theorem exists_evict_offered {offer : (Finmap fun _ : Nat => Result) → Nat}
    (offers : ∀ recent, recent.keys.Nonempty → offer recent ∈ recent) {maxPending rounds : Nat}
    {recent : Finmap fun _ : Nat => Result} (excess : recent.keys.card - maxPending = rounds) :
    ∃ after, evict maxPending recent (offered offer recent rounds) = some after := by
  induction rounds generalizing recent with
  | zero =>
      have small : ¬ recent.keys.card > maxPending := by omega
      exact ⟨recent, by simp only [offered, evict, small, if_false]⟩
  | succ rounds ih =>
      -- the map is not empty, and one key less in it is progress
      have full : recent.keys.card > maxPending := by omega
      have present := offers recent (Finset.card_pos.mp (by omega))
      have smaller : (recent.erase (offer recent)).keys.card + 1 = recent.keys.card := by
        rw [Finmap.keys_erase]
        exact Finset.card_erase_add_one (Finmap.mem_keys.mpr present)
      have excess' : (recent.erase (offer recent)).keys.card - maxPending = rounds := by omega
      obtain ⟨after, ended⟩ := ih excess'
      refine ⟨after, ?_⟩
      simp only [offered, evict, full, present, and_self, if_true]
      exact ended

/-- What the server holds for its clients is bounded. -/
structure Bounded (maxPending : Nat) (s : Handlers) : Prop where
  configured : s.maxPending = maxPending
  pendingOps : s.pendingOps.keys.card ≤ maxPending
  recent : s.recent.keys.card ≤ maxPending
  duplicates : Capped s.server.duplicates

/-- Snapshots come from servers that keep to the cap. -/
def Transfers (json : Json) : HandlerAction → Prop
  | .apply msg _ => Server.Portable json msg
  | _ => True

theorem transfers_of_serial (serial : s.Serial a) : Transfers json a := by
  cases a with
  | apply msg now =>
      cases msg with
      | snapshot data index term => exact serial.elim
      | command command index => trivial
  | _ => trivial

theorem capped_step (capped : Capped s.server.duplicates) (portable : Transfers json a)
    (stepped : s.step json a = some s') : Capped s'.server.duplicates := by
  rcases server_cases stepped with same | ⟨op, now, looked⟩ | ⟨msg, now, rfl, applied⟩
  · rwa [same]
  · rw [looked, findDuplicate]
    split
    · exact Server.capped_getDuplicate capped _ _ _
    · exact capped
  · rw [applied]
    exact Server.capped_processApplyMsg capped portable now

namespace Bounded

variable {maxPending : Nat}

theorem initial (maxPending : Int) :
    Bounded (newServer maxPending).maxPending (newServer maxPending) where
  configured := rfl
  pendingOps := Nat.zero_le _
  recent := Nat.zero_le _
  duplicates _ _ lookup := by simp [newServer] at lookup

/-- A step that leaves both maps as they are or makes them smaller. -/
theorem shrink (bounded : Bounded maxPending s) (duplicates : Capped s'.server.duplicates)
    (configured : s'.maxPending = s.maxPending)
    (pendingOps : s'.pendingOps.keys.card ≤ s.pendingOps.keys.card)
    (recent : s'.recent.keys.card ≤ s.recent.keys.card) : Bounded maxPending s' where
  configured := configured.trans bounded.configured
  pendingOps := pendingOps.trans bounded.pendingOps
  recent := recent.trans bounded.recent
  duplicates := duplicates

theorem step (bounded : Bounded maxPending s) (portable : Transfers json a)
    (stepped : s.step json a = some s') : Bounded maxPending s' := by
  have duplicates := capped_step bounded.duplicates portable stepped
  have limit := bounded.configured
  cases effect_of_step stepped with
  | collect phase alive room stashed =>
      refine ⟨limit, ?_, ?_, duplicates⟩
      · exact (Finmap.card_keys_insert_le _ _ _).trans (by omega)
      · exact (Finmap.card_keys_erase_le _ _).trans bounded.recent
  | wait phase alive room nothing =>
      refine ⟨limit, ?_, bounded.recent, duplicates⟩
      exact (Finmap.card_keys_insert_le _ _ _).trans (by omega)
  | cleanup phase =>
      exact bounded.shrink duplicates rfl (Finmap.card_keys_erase_le _ _) le_rfl
  | found loop waiter =>
      exact bounded.shrink duplicates rfl (Finmap.card_keys_erase_le _ _) le_rfl
  | stash loop nobody ended =>
      refine ⟨limit, bounded.pendingOps, ?_, duplicates⟩
      exact (card_evict_le ended).trans_eq limit
  | restore idle cleared =>
      refine bounded.shrink duplicates rfl le_rfl ?_
      rcases cleared with rfl | rfl
      · exact le_rfl
      · exact Nat.zero_le _
  | kill =>
      refine bounded.shrink duplicates ?_ ?_ ?_
      all_goals
        unfold kill
        split
      all_goals first | rfl | exact le_rfl | exact Nat.zero_le _
  | _ => exact bounded.shrink duplicates rfl le_rfl le_rfl

end Bounded

/-- Whatever the calls, timers, deliveries and shutdowns, a server holds at most the
configured number of waiters and of results nobody has come for, and a hundred results
for each client; and the loop that makes room for a result ends, whichever keys the map
offers it. -/
theorem memory_bounded {maxPending : Int} {s : Handlers}
    (run : Run (step json) (fun _ a => Transfers json a) (newServer maxPending) s) :
    Bounded (newServer maxPending).maxPending s ∧
      ∀ index result, s.loop = .notifying index result →
        ∀ offer, (∀ recent, recent.keys.Nonempty → offer recent ∈ recent) →
          ∃ s', s.step json (.notify (offered offer (s.recent.insert index result)
            ((s.recent.insert index result).keys.card - s.maxPending))) = some s' := by
  constructor
  · exact run.invariant (Bounded.initial maxPending) fun bounded portable stepped =>
      bounded.step portable stepped
  · intro index result notifying offer offers
    simp only [step, notifying, notifyWaiter]
    cases s.pendingOps.lookup index with
    | some call => exact ⟨_, rfl⟩
    | none =>
        have rounds : (s.recent.insert index result).keys.card - s.maxPending = _ := rfl
        obtain ⟨after, ended⟩ := exists_evict_offered offers rounds
        exact ⟨_, by rw [ended]⟩

/-- There is room for one: call `0` waits, the result at index `2` is stashed, and the
loop has one more. -/
def roomForOne : List HandlerAction :=
  [.submit 0 putOp none 0, .append 0 1, .replicated 0, .register 0,
    .apply (.command [] 2) 0, .notify [], .apply (.command [] 3) 0]

/-- The largest key. -/
def newest (recent : Finmap fun _ : Nat => Result) : Nat := recent.keys.sup id

theorem newest_mem {recent : Finmap fun _ : Nat => Result} (nonempty : recent.keys.Nonempty) :
    newest recent ∈ recent := by
  obtain ⟨key, member, greatest⟩ := recent.keys.exists_mem_eq_sup nonempty id
  rw [newest, greatest]
  exact Finmap.mem_keys.mp member

/-- A loop that is offered the newest result drops the one it came with. -/
theorem memory_bounded_roomForOne :
    ∃ s s', Run (step putJson) (fun _ a => Transfers putJson a) (newServer 1) s ∧
      s.pendingOps.lookup 1 = some 0 ∧ s.recent.lookup 2 = some {} ∧
      Bounded (newServer 1).maxPending s ∧
      s.step putJson (.notify (offered newest (s.recent.insert 3 {})
        ((s.recent.insert 3 {}).keys.card - s.maxPending))) = some s' ∧
      (offered newest (s.recent.insert 3 {})
        ((s.recent.insert 3 {}).keys.card - s.maxPending)) = [3] := by
  have reached : ∃ s, Run (step putJson) Serial (newServer 1) s ∧
      s.loop = .notifying 3 {} ∧ s.pendingOps.lookup 1 = some 0 ∧
      s.recent.lookup 2 = some {} ∧ (offered newest (s.recent.insert 3 {})
        ((s.recent.insert 3 {}).keys.card - s.maxPending)) = [3] :=
    exists_run_of_perform roomForOne _ (by decide +kernel)
  obtain ⟨s, serial, notifying, waiter, stashed, dropped⟩ := reached
  have run : Run (step putJson) (fun _ a => Transfers putJson a) (newServer 1) s :=
    serial.mono fun _ _ => transfers_of_serial
  have bounded := memory_bounded run
  obtain ⟨s', ended⟩ := bounded.2 3 {} notifying newest fun _ => newest_mem
  exact ⟨s, s', run, waiter, stashed, bounded.1, ended, dropped⟩

/-! ## Slots that are never given back -/

/-- The node gives an index to one call, and applies it once. -/
@[reducible] def Numbers (s : Handlers) : HandlerAction → Prop
  | .append _ index => ∀ p ∈ s.entries, p.2 ≠ index
  | .apply (.command _ index) _ => ∀ p ∈ s.applied, p.1 ≠ index
  | _ => True

instance (s : Handlers) : DecidablePred s.Numbers := HandlerAction.decidable _

theorem not_at_returned {outcome : Except String Result} {index : Nat} :
    ¬ (Phase.returned outcome).At index := by
  rintro ((phase | phase) | (phase | phase)) <;> cases phase

/-- Every index belongs to one call. -/
structure Numbered (s : Handlers) : Prop where
  indexed : ∀ {call index}, (s.call call).At index → (call, index) ∈ s.entries
  keyed : ∀ {call index}, s.pendingOps.lookup index = some call → (call, index) ∈ s.entries
  owner : ∀ {call other index}, (call, index) ∈ s.entries → (other, index) ∈ s.entries →
    call = other

namespace Numbered

theorem initial (maxPending : Int) : Numbered (newServer maxPending) where
  indexed on := by
    rcases on with (phase | phase) | (phase | phase) <;> cases phase
  keyed found := by simp [newServer] at found
  owner member := by cases member

/-- A step in which no call gets an index. -/
theorem frame (numbered : Numbered s) (entries : s'.entries = s.entries)
    (indexed : ∀ {call index}, (s'.call call).At index → (s.call call).At index)
    (keyed : ∀ {call index}, s'.pendingOps.lookup index = some call →
      s.pendingOps.lookup index = some call ∨ (s.call call).At index) : Numbered s' where
  indexed on := by
    rw [entries]
    exact numbered.indexed (indexed on)
  keyed found := by
    rw [entries]
    exact (keyed found).elim numbered.keyed numbered.indexed
  owner := by
    rw [entries]
    exact numbered.owner

/-- A call moves on with the index it has. -/
theorem setCall (numbered : Numbered s) {call : Nat} {phase : Phase} {server : Server}
    (on : ∀ {index}, phase.At index → (s.call call).At index) :
    Numbered ({ s with server }.setCall call phase) := by
  refine numbered.frame rfl (fun {other index} here => ?_) .inl
  by_cases same : other = call
  · subst same
    rw [setCall_self] at here
    exact on here
  · rwa [setCall_of_ne _ _ same] at here

theorem append (numbered : Numbered s) {call index : Nat} (phase : s.call call = .submitting)
    (fresh : ∀ p ∈ s.entries, p.2 ≠ index) :
    Numbered { s.setCall call (.replicating index) with
      entries := (call, index) :: s.entries } where
  indexed {other index'} on := by
    by_cases same : other = call
    · subst same
      rw [setCall_self] at on
      rcases on with (on | on) | (on | on) <;> cases on
      exact List.mem_cons_self
    · rw [setCall_of_ne _ _ same] at on
      exact List.mem_cons_of_mem _ (numbered.indexed on)
  keyed found := List.mem_cons_of_mem _ (numbered.keyed found)
  owner {one other index'} first second := by
    rcases List.mem_cons.mp first with same | old <;>
      rcases List.mem_cons.mp second with same' | old'
    · cases same
      cases same'
      rfl
    · cases same
      exact absurd rfl (fresh _ old')
    · cases same'
      exact absurd rfl (fresh _ old)
    · exact numbered.owner old old'

/-- A call enters its key. -/
theorem enroll (numbered : Numbered s) {call index : Nat} {phase : Phase}
    {recent : Finmap fun _ : Nat => Result} {passed : List Nat}
    (registering : s.call call = .registering index)
    (on : ∀ {index'}, phase.At index' → index' = index) :
    Numbered ({ s with
      pendingOps := s.pendingOps.insert index call
      recent, passed }.setCall call phase) := by
  have here : (s.call call).At index := .inl (.inr registering)
  refine numbered.frame rfl (fun {other index'} after => ?_) (fun {other index'} found => ?_)
  · by_cases same : other = call
    · subst same
      rw [setCall_self] at after
      rw [on after]
      exact here
    · rwa [setCall_of_ne _ _ same] at after
  · by_cases same : index' = index
    · subst same
      rw [Handlers.setCall, Finmap.lookup_insert] at found
      cases found
      exact .inr here
    · rw [Handlers.setCall, Finmap.lookup_insert_of_ne _ same] at found
      exact .inl found

theorem step (numbered : Numbered s) (numbers : s.Numbers a)
    (stepped : s.step json a = some s') : Numbered s' := by
  cases effect_of_step stepped with
  | answer phase => exact numbered.setCall fun on => (not_at_returned on).elim
  | submit phase =>
      refine numbered.setCall ?_
      rintro index ((on | on) | (on | on)) <;> cases on
  | append phase => exact numbered.append phase numbers
  | replicated phase =>
      refine numbered.setCall ?_
      rintro index ((on | on) | (on | on)) <;> cases on
      exact .inl (.inl phase)
  | fail phase => exact numbered.setCall fun on => (not_at_returned on).elim
  | refuse phase full => exact numbered.setCall fun on => (not_at_returned on).elim
  | collect phase alive room stashed =>
      exact numbered.enroll phase fun on => (not_at_returned on).elim
  | wait phase alive room nothing =>
      refine numbered.enroll phase ?_
      rintro index' ((on | on) | (on | on)) <;> cases on
      rfl
  | receive phase sent =>
      exact (numbered.setCall fun on => (not_at_returned on).elim).frame rfl id .inl
  | timeout phase =>
      refine (numbered.setCall ?_).frame rfl id .inl
      · rintro index' ((on | on) | (on | on)) <;> cases on
        exact .inr (.inl phase)
  | cleanup phase =>
      exact (numbered.setCall fun on => (not_at_returned on).elim).frame rfl id
        fun found => .inl (Finmap.lookup_of_lookup_erase found).2
  | shutdown phase dead => exact numbered.setCall fun on => (not_at_returned on).elim
  | found loop waiter =>
      exact numbered.frame rfl id fun found => .inl (Finmap.lookup_of_lookup_erase found).2
  | kill =>
      unfold kill
      split
      · exact numbered
      · refine numbered.frame rfl id fun found => ?_
        rw [Finmap.lookup_empty] at found
        cases found
  | _ => exact numbered.frame rfl id .inl

end Numbered

/-- The key of a call that has returned, at an index the apply loop is done with. -/
def Abandoned (s : Handlers) (index : Nat) : Prop :=
  ∃ call outcome result, s.pendingOps.lookup index = some call ∧
    s.call call = .returned outcome ∧ (index, result) ∈ s.applied ∧
    ∀ other, s.loop ≠ .notifying index other

theorem returned_of_step (stepped : s.step json a = some s') {call : Nat}
    {outcome : Except String Result} (returned : s.call call = .returned outcome) :
    s'.call call = .returned outcome := by
  have one : ∀ {other : Nat} {phase before : Phase},
      s'.call = (s.setCall other phase).call → s.call other = before →
      (∀ outcome, before ≠ .returned outcome) → s'.call call = .returned outcome := by
    intro other phase before same was running
    rw [same]
    by_cases own : call = other
    · subst own
      rw [returned] at was
      exact absurd was.symm (running outcome)
    · rw [setCall_of_ne _ _ own]
      exact returned
  cases effect_of_step stepped with
  | answer phase => exact one rfl phase (by simp)
  | submit phase => exact one rfl phase (by simp)
  | append phase => exact one rfl phase (by simp)
  | replicated phase => exact one rfl phase (by simp)
  | fail phase => rcases phase with phase | ⟨_, phase⟩ <;> exact one rfl phase (by simp)
  | refuse phase full => exact one rfl phase (by simp)
  | collect phase alive room stashed => exact one rfl phase (by simp)
  | wait phase alive room nothing => exact one rfl phase (by simp)
  | receive phase sent => exact one rfl phase (by simp)
  | timeout phase => exact one rfl phase (by simp)
  | cleanup phase => exact one rfl phase (by simp)
  | shutdown phase dead => exact one rfl phase (by simp)
  | kill =>
      unfold kill
      split <;> exact returned
  | _ => exact returned

/-- Nobody takes an abandoned key out, except for `Kill`. -/
theorem Abandoned.step {index : Nat} (abandoned : s.Abandoned index) (numbered : Numbered s)
    (numbers : s.Numbers a) (stepped : s.step json a = some s') :
    s'.dead = true ∨
      s'.Abandoned index ∧ s'.pendingOps.lookup index = s.pendingOps.lookup index := by
  obtain ⟨call, outcome, result, key, returned, applied, done⟩ := abandoned
  have after := returned_of_step stepped returned
  have kept := applied_mono stepped _ applied
  -- a call on its way has another index
  have elsewhere : ∀ {other index'}, (s.call other).At index' → index ≠ index' := by
    rintro other _ on rfl
    have same := numbered.owner (numbered.indexed on) (numbered.keyed key)
    rw [same, returned] at on
    exact not_at_returned on
  have conclude : s'.pendingOps.lookup index = some call →
      (∀ other, s'.loop ≠ .notifying index other) → s'.dead = true ∨
        s'.Abandoned index ∧ s'.pendingOps.lookup index = s.pendingOps.lookup index :=
    fun key' done => .inr ⟨⟨call, outcome, result, key', after, kept, done⟩, key'.trans key.symm⟩
  cases effect_of_step stepped with
  | collect phase alive room stashed =>
      refine conclude ?_ done
      exact (Finmap.lookup_insert_of_ne _ (elsewhere (.inl (.inr phase)))).trans key
  | wait phase alive room nothing =>
      refine conclude ?_ done
      exact (Finmap.lookup_insert_of_ne _ (elsewhere (.inl (.inr phase)))).trans key
  | cleanup phase =>
      refine conclude ?_ done
      exact (Finmap.lookup_erase_ne (elsewhere (.inr (.inr phase)))).trans key
  | found loop waiter =>
      refine conclude ?_ (by simp)
      refine (Finmap.lookup_erase_ne ?_).trans key
      rintro rfl
      exact done _ loop
  | apply idle =>
      refine conclude key ?_
      rintro other same
      cases same
      exact numbers _ applied rfl
  | stash loop nobody bounded => exact conclude key (by simp)
  | send loop => exact conclude key (by simp)
  | kill =>
      unfold kill
      split
      next dead => exact .inl dead
      · exact .inl rfl
  | _ => exact conclude key done

/-- What is stashed was applied, and the loop is done with it. -/
structure Stashed (s : Handlers) : Prop where
  applied : ∀ {index result}, s.recent.lookup index = some result → (index, result) ∈ s.applied
  noted : ∀ {index result}, s.loop = .notifying index result → (index, result) ∈ s.applied
  done : ∀ {index result other}, s.recent.lookup index = some result →
    s.loop ≠ .notifying index other

namespace Stashed

theorem initial (maxPending : Int) : Stashed (newServer maxPending) where
  applied found := by simp [newServer] at found
  noted loop := by cases loop
  done found := by simp [newServer] at found

/-- A step that stashes nothing and finds no new result. -/
theorem frame (stashed : Stashed s) (applied : s'.applied = s.applied)
    (recent : ∀ {index result}, s'.recent.lookup index = some result →
      s.recent.lookup index = some result)
    (loop : ∀ {index result}, s'.loop = .notifying index result →
      s.loop = .notifying index result) : Stashed s' where
  applied found := applied ▸ stashed.applied (recent found)
  noted noted := applied ▸ stashed.noted (loop noted)
  done found noted := stashed.done (recent found) (loop noted)

theorem step (stashed : Stashed s) (numbers : s.Numbers a) (stepped : s.step json a = some s') :
    Stashed s' := by
  cases effect_of_step stepped with
  | collect phase alive room found =>
      exact stashed.frame rfl (fun found => (Finmap.lookup_of_lookup_erase found).2) id
  | restore idle cleared =>
      refine stashed.frame rfl (fun found => ?_) id
      rcases cleared with rfl | rfl
      · exact found
      · rw [Finmap.lookup_empty] at found
        cases found
  | apply idle =>
      refine ⟨fun found => List.mem_cons_of_mem _ (stashed.applied found), fun noted => ?_,
        fun found noted => ?_⟩
      · cases noted
        exact List.mem_cons_self
      · -- an index is applied once, and what is stashed was
        cases noted
        exact numbers _ (stashed.applied found) rfl
  | found loop waiter => exact stashed.frame rfl id (by simp)
  | @stash index result evicted recent loop nobody ended =>
      refine ⟨fun stored => ?_, by simp, by simp⟩
      rcases lookup_of_stash ended stored with ⟨rfl, rfl⟩ | held
      · exact stashed.noted loop
      · exact stashed.applied held
  | send loop => exact stashed.frame rfl id (by simp)
  | kill =>
      unfold kill
      split
      · exact stashed
      · exact stashed.frame rfl id id
  | _ => exact stashed.frame rfl id id

end Stashed

/-- A call that finds its result stashed leaves its key behind. -/
theorem abandoned_of_collect (stashed : Stashed s) {call index : Nat} {result : Result}
    (phase : s.call call = .registering index) (found : s.recent.lookup index = some result)
    (stepped : s.step json (.register call) = some s')
    (returned : s'.call call = .returned (.ok result)) : s'.Abandoned index := by
  have same : ∀ {other}, s.call call = .registering other → other = index := by
    intro other phase'
    rw [phase] at phase'
    exact (Phase.registering.inj phase').symm
  cases effect_of_step stepped with
  | refuse phase' full =>
      rw [setCall_self] at returned
      cases returned
  | collect phase' alive room =>
      rw [same phase'] at returned ⊢
      exact ⟨call, _, result, Finmap.lookup_insert _, returned, stashed.applied found,
        fun _ => stashed.done found⟩
  | wait phase' alive room nothing =>
      rw [same phase', found] at nothing
      cases nothing

/-- The call has not registered, or has failed. -/
def Phase.Denied (phase : Phase) : Prop :=
  phase.Early ∨ ∃ err, phase = .returned (.error err)

theorem not_denied_waiting {index : Nat} : ¬ Phase.Denied (.waiting index) := by
  rintro (early | ⟨err, ended⟩)
  · exact early
  · cases ended

/-- Nobody can register any more. -/
def Closed (s : Handlers) : Prop := s.dead = true ∨ s.maxPending ≤ s.pendingOps.keys.card

theorem denied_step (closed : s.Closed) {call : Nat} (anonymous : AnonymousCall call a)
    (stepped : s.step json a = some s') (denied : Phase.Denied (s.call call)) :
    Phase.Denied (s'.call call) := by
  have one : ∀ {other : Nat} {phase : Phase}, s'.call = (s.setCall other phase).call →
      (call = other → Phase.Denied (s.call other) → Phase.Denied phase) →
      Phase.Denied (s'.call call) := by
    intro other phase same step
    rw [same]
    by_cases own : call = other
    · subst own
      rw [setCall_self]
      exact step rfl denied
    · rw [setCall_of_ne _ _ own]
      exact denied
  have full : s.dead = false → ¬ s.pendingOps.keys.card < s.maxPending := by
    rintro alive room
    rcases closed with dead | full
    · simp [alive] at dead
    · omega
  cases effect_of_step stepped with
  | @answer other op encodeErr now server outcome phase =>
      refine one rfl fun own _ => ?_
      rcases call_of_submit (anonymous own.symm) stepped with entered | ⟨err, failed⟩
      · rw [setCall_self] at entered
        cases entered
      · rw [setCall_self] at failed
        exact .inr ⟨err, failed⟩
  | submit phase => exact one rfl fun _ _ => .inl trivial
  | append phase => exact one rfl fun _ _ => .inl trivial
  | replicated phase => exact one rfl fun _ _ => .inl trivial
  | fail phase => exact one rfl fun _ _ => .inr ⟨_, rfl⟩
  | refuse phase full => exact one rfl fun _ _ => .inr ⟨_, rfl⟩
  | collect phase alive room stashed => exact absurd room (full alive)
  | wait phase alive room nothing => exact absurd room (full alive)
  | receive phase sent => exact one rfl fun _ waiting => absurd (phase ▸ waiting) not_denied_waiting
  | timeout phase => exact one rfl fun _ waiting => absurd (phase ▸ waiting) not_denied_waiting
  | cleanup phase => exact one rfl fun _ _ => .inr ⟨_, rfl⟩
  | shutdown phase dead => exact one rfl fun _ _ => .inr ⟨_, rfl⟩
  | kill =>
      unfold kill
      split <;> exact denied
  | _ => exact denied

/-- As many keys as there is room for are abandoned. -/
structure Exhausted (slots : Finset Nat) (s : Handlers) : Prop where
  numbered : Numbered s
  full : s.maxPending ≤ slots.card
  stuck : s.dead = true ∨ ∀ index ∈ slots, s.Abandoned index

theorem Exhausted.closed {slots : Finset Nat} (exhausted : Exhausted slots s) : s.Closed := by
  refine exhausted.stuck.imp id fun abandoned => exhausted.full.trans ?_
  refine Finset.card_le_card fun index member => ?_
  obtain ⟨call, -, -, key, -⟩ := abandoned index member
  exact Finmap.mem_keys.mpr (Finmap.mem_iff.mpr ⟨call, key⟩)

theorem dead_of_step (stepped : s.step json a = some s') (dead : s.dead = true) :
    s'.dead = true := by
  cases effect_of_step stepped with
  | kill => simp [kill, dead]
  | _ => exact dead

theorem maxPending_of_step (stepped : s.step json a = some s') :
    s'.maxPending = s.maxPending := by
  cases effect_of_step stepped with
  | kill =>
      unfold kill
      split <;> rfl
  | _ => rfl

/-- Along a whole run. -/
theorem Abandoned.kept_of_run {index : Nat} {t : Handlers} (abandoned : s.Abandoned index)
    (numbered : Numbered s) (run : Run (Handlers.step json) Numbers s t) :
    t.dead = true ∨
      t.Abandoned index ∧ t.pendingOps.lookup index = s.pendingOps.lookup index := by
  have both : Numbered t ∧ (t.dead = true ∨
      t.Abandoned index ∧ t.pendingOps.lookup index = s.pendingOps.lookup index) := by
    refine @Run.invariant _ _ _ _ _ _ (fun t => Numbered t ∧ (t.dead = true ∨
      t.Abandoned index ∧ t.pendingOps.lookup index = s.pendingOps.lookup index))
      run ⟨numbered, .inr ⟨abandoned, rfl⟩⟩ ?_
    rintro t u a ⟨numbered, stuck⟩ numbers stepped
    refine ⟨numbered.step numbers stepped, ?_⟩
    rcases stuck with dead | ⟨abandoned, same⟩
    · exact .inl (dead_of_step stepped dead)
    · exact (abandoned.step numbered numbers stepped).imp_right
        fun ⟨still, key⟩ => ⟨still, key.trans same⟩
  exact both.2

theorem Exhausted.step {slots : Finset Nat} (exhausted : Exhausted slots s)
    (numbers : s.Numbers a) (stepped : s.step json a = some s') : Exhausted slots s' where
  numbered := exhausted.numbered.step numbers stepped
  full := (maxPending_of_step stepped).trans_le exhausted.full
  stuck := by
    rcases exhausted.stuck with dead | abandoned
    · exact .inl (dead_of_step stepped dead)
    · by_cases dead : s'.dead = true
      · exact .inl dead
      · refine .inr fun index member => ?_
        exact (((abandoned index member).step exhausted.numbered numbers stepped).resolve_left
          dead).1

/-- A call that finds its result stashed leaves its key behind, and nobody takes it out as
long as the server lives: once there are as many such keys as the server has room for,
every call without ids that has not registered fails, whatever happens later. -/
theorem abandoned_slots_refuse_forever {maxPending : Int}
    (run : Run (step json) Numbers (newServer maxPending) s) :
    (∀ {call index result s'}, s.call call = .registering index →
      s.recent.lookup index = some result → s.step json (.register call) = some s' →
      s'.call call = .returned (.ok result) → s'.Abandoned index) ∧
    (∀ {index t}, s.Abandoned index → Run (step json) Numbers s t →
      t.dead = true ∨ t.pendingOps.lookup index = s.pendingOps.lookup index) ∧
    ∀ {slots : Finset Nat} {call t}, (∀ index ∈ slots, s.Abandoned index) →
      s.maxPending ≤ slots.card → (s.call call).Early →
      Run (step json) (fun s a => s.Numbers a ∧ AnonymousCall call a) s t →
      (t.call call).Early ∨ ∃ err, t.call call = .returned (.error err) := by
  have numbered : Numbered s :=
    run.invariant (Numbered.initial maxPending) fun numbered => numbered.step
  have stashed : Stashed s :=
    run.invariant (Stashed.initial maxPending) fun stashed => stashed.step
  refine ⟨fun {call index result s'} => abandoned_of_collect stashed, ?_, ?_⟩
  · intro index t abandoned later
    exact (abandoned.kept_of_run numbered later).imp_right And.right
  · intro slots call t abandoned full early later
    have both : Exhausted slots t ∧ Phase.Denied (t.call call) := by
      refine @Run.invariant _ _ _ _ _ _ (fun t => Exhausted slots t ∧ Phase.Denied (t.call call))
        later ⟨⟨numbered, full, .inr abandoned⟩, .inl early⟩ ?_
      rintro t u a ⟨exhausted, denied⟩ ⟨numbers, anonymous⟩ stepped
      exact ⟨exhausted.step numbers stepped,
        denied_step exhausted.closed anonymous stepped denied⟩
    exact both.2

/-- The entry of a call is applied before the call registers. -/
def early : List HandlerAction :=
  [.submit 0 putOp none 0, .append 0 1, .apply (.command [] 1) 0, .notify [], .replicated 0]

/-- The entry of a later call is applied, and the call is refused all the same. -/
def refusedThough : List HandlerAction :=
  [.submit 1 putOp none 0, .append 1 2, .apply (.command [] 2) 0, .notify [], .replicated 1,
    .register 1]

/-- In a server with room for one, one such call is enough. -/
theorem abandoned_slots_refuse_forever_collected :
    ∃ s t, Run (step putJson) Numbers (newServer 1) s ∧
      Run (step putJson) (fun s a => s.Numbers a ∧ AnonymousCall 1 a) s t ∧ s.Abandoned 1 ∧
      t.dead = false ∧ t.pendingOps.lookup 1 = s.pendingOps.lookup 1 ∧
      s.call 1 = .idle ∧ (2, {}) ∈ t.applied ∧ t.call 1 = .returned (.error errTooManyPending) ∧
      ((t.call 1).Early ∨ ∃ err, t.call 1 = .returned (.error err)) := by
  have reached : ∃ r, Run (step putJson) Numbers (newServer 1) r ∧
      r.call 0 = .registering 1 ∧ r.recent.lookup 1 = some {} ∧
      (r.step putJson (.register 0)).any (fun s => decide (s.maxPending = 1 ∧
        s.call 0 = .returned (.ok {}) ∧ s.call 1 = .idle ∧
        (perform (step putJson) (fun s a => s.Numbers a ∧ AnonymousCall 1 a) s refusedThough).any
          (fun t => decide (t.dead = false ∧ (2, {}) ∈ t.applied ∧
            t.call 1 = .returned (.error errTooManyPending))) = true)) = true :=
    exists_run_of_perform early _ (by decide +kernel)
  obtain ⟨r, before, phase, found, rest⟩ := reached
  cases stepped : r.step putJson (.register 0) with
  | none => simp [stepped] at rest
  | some s =>
      rw [stepped] at rest
      obtain ⟨one, returned, idle, rest⟩ := of_decide_eq_true rest
      obtain ⟨t, later, alive, executed, refused⟩ := exists_run_of_perform refusedThough _ rest
      have run : Run (step putJson) Numbers (newServer 1) s := before.tail trivial stepped
      have abandoned := (abandoned_slots_refuse_forever before).1 phase found stepped returned
      have slots : ∀ index ∈ ({1} : Finset Nat), s.Abandoned index := by
        intro index member
        rwa [Finset.mem_singleton.mp member]
      have stuck := abandoned_slots_refuse_forever run
      have kept := stuck.2.1 abandoned (later.mono fun _ _ => And.left)
      exact ⟨s, t, run, later, abandoned, alive, kept.resolve_left (by simp [alive]), idle,
        executed, refused, stuck.2.2 slots (by simp [one]) (by rw [idle]; trivial) later⟩

end Handlers

end DistribKV.KV
