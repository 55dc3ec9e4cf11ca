import DistribKV.KV.Waiters

/-!
# The handoff of results

The apply loop and the handler of an entry race: the handler may register before or
after the result is known.  A result that is known first waits in `recent`, which
holds at most `maxPending` results and drops any of them to make room.  When it never
drops one that a call has yet to pick up, and timers fire only before the entry is
applied, every call that gets to register receives the result of its entry.
-/

namespace DistribKV.KV

open Consensus

/-- The call has an index and has not come to its registration. -/
def Phase.EarlyAt (phase : Phase) (index : Nat) : Prop :=
  phase = .replicating index ∨ phase = .registering index

/-- The call is on its way with an index. -/
def Phase.At (phase : Phase) (index : Nat) : Prop :=
  phase.EarlyAt index ∨ phase.RegisteredAt index

instance : DecidablePred Phase.Early
  | .idle | .submitting | .replicating _ | .registering _ => .isTrue trivial
  | .waiting _ | .timedOut _ | .returned _ => .isFalse id

theorem Phase.EarlyAt.early {phase : Phase} {index : Nat} (early : phase.EarlyAt index) :
    phase.Early := by
  rcases early with rfl | rfl <;> trivial

namespace Handlers

variable {json : Json} {s s' : Handlers} {a : HandlerAction}

/-- The node gives an index to one call, before it is applied, and applies it once;
the server is not killed, and no snapshot arrives. -/
@[reducible] def Serial (s : Handlers) : HandlerAction → Prop
  | .append _ index => (∀ p ∈ s.entries, p.2 ≠ index) ∧ ∀ p ∈ s.applied, p.1 ≠ index
  | .apply (.command _ index) _ => ∀ p ∈ s.applied, p.1 ≠ index
  | .apply (.snapshot _ _ _) _ => False
  | .kill => False
  | _ => True

/-- No result is evicted that a call has yet to pick up. -/
@[reducible] def Spares (s : Handlers) : HandlerAction → Prop
  | .notify evicted => ∀ p ∈ s.entries, (s.call p.1).Early → p.2 ∉ evicted
  | _ => True

/-- A timer fires only while the entry of the call is not applied. -/
@[reducible] def InTime (s : Handlers) : HandlerAction → Prop
  | .timeout call => ∀ p ∈ s.entries, p.1 = call → ∀ q ∈ s.applied, q.1 ≠ p.2
  | _ => True

instance (s : Handlers) : DecidablePred s.Serial := HandlerAction.decidable _

instance (s : Handlers) : DecidablePred s.Spares := HandlerAction.decidable _

instance (s : Handlers) : DecidablePred s.InTime := HandlerAction.decidable _

/-- How far the call with an index has come. -/
inductive Stage (s : Handlers) (call index : Nat) : Prop where
  | early (phase : (s.call call).EarlyAt index) (fresh : ∀ p ∈ s.applied, p.1 ≠ index)
  | waits (phase : s.call call = .waiting index) (fresh : ∀ p ∈ s.applied, p.1 ≠ index)
      (key : s.pendingOps.lookup index = some call) (empty : s.resultCh call = none)
  /-- The result is known, and the call has not registered. -/
  | noted {res : Result} (applied : (index, res) ∈ s.applied)
      (phase : (s.call call).EarlyAt index) (loop : s.loop = .notifying index res)
  | stashed {res : Result} (applied : (index, res) ∈ s.applied)
      (phase : (s.call call).EarlyAt index) (stashed : s.recent.lookup index = some res)
  /-- The result is known, and the call has registered. -/
  | called {res : Result} (applied : (index, res) ∈ s.applied)
      (phase : s.call call = .waiting index) (loop : s.loop = .notifying index res)
      (key : s.pendingOps.lookup index = some call) (empty : s.resultCh call = none)
  | sending {res : Result} (applied : (index, res) ∈ s.applied)
      (phase : s.call call = .waiting index) (loop : s.loop = .sending call res)
      (empty : s.resultCh call = none)
  | sent {res : Result} (applied : (index, res) ∈ s.applied)
      (phase : s.call call = .waiting index) (sent : s.resultCh call = some res)
  | received {res : Result} (applied : (index, res) ∈ s.applied)
      (phase : s.call call = .returned (.ok res))
  | expired (phase : s.call call = .timedOut index ∨ ∃ outcome, s.call call = .returned outcome)
      (expired : call ∈ s.expired)
  /-- The call did not get past the checks of its registration. -/
  | refused {outcome : Except String Result} (phase : s.call call = .returned outcome)
      (absent : call ∉ s.passed)

namespace Stage

variable {call index : Nat}

/-- Nothing that concerns the call has changed. -/
theorem frame (stage : Stage s call index)
    (phase : s'.call call = s.call call) (resultCh : s'.resultCh call = s.resultCh call)
    (key : s.pendingOps.lookup index = some call → s'.pendingOps.lookup index = some call)
    (recent : ∀ res, s.recent.lookup index = some res → s'.recent.lookup index = some res)
    (loop : s'.loop = s.loop) (applied : s'.applied = s.applied)
    (passed : call ∈ s'.passed → call ∈ s.passed)
    (expired : call ∈ s.expired → call ∈ s'.expired) : Stage s' call index := by
  cases stage with
  | early early fresh => exact .early (phase ▸ early) (applied ▸ fresh)
  | waits waits fresh held empty =>
      exact .waits (phase.trans waits) (applied ▸ fresh) (key held) (resultCh.trans empty)
  | noted known early notifying =>
      exact .noted (applied ▸ known) (phase ▸ early) (loop.trans notifying)
  | stashed known early found => exact .stashed (applied ▸ known) (phase ▸ early) (recent _ found)
  | called known waits notifying held empty =>
      exact .called (applied ▸ known) (phase.trans waits) (loop.trans notifying) (key held)
        (resultCh.trans empty)
  | sending known waits sends empty =>
      exact .sending (applied ▸ known) (phase.trans waits) (loop.trans sends)
        (resultCh.trans empty)
  | sent known waits sent =>
      exact .sent (applied ▸ known) (phase.trans waits) (resultCh.trans sent)
  | received known returned => exact .received (applied ▸ known) (phase.trans returned)
  | expired ended fired => exact .expired (phase ▸ ended) (expired fired)
  | refused returned absent =>
      exact .refused (phase.trans returned) fun member => absent (passed member)

/-- A call with an index has entered `ReplicateCommand`. -/
theorem begun (stage : Stage s call index) :
    s.call call ≠ .idle ∧ s.call call ≠ .submitting := by
  have late : ∀ {index'}, (s.call call).EarlyAt index' →
      s.call call ≠ .idle ∧ s.call call ≠ .submitting := by
    rintro index' (phase | phase) <;> simp [phase]
  cases stage with
  | early phase => exact late phase
  | noted _ phase => exact late phase
  | stashed _ phase => exact late phase
  | waits phase => simp [phase]
  | called _ phase => simp [phase]
  | sending _ phase => simp [phase]
  | sent _ phase => simp [phase]
  | received _ phase => simp [phase]
  | expired phase => rcases phase with phase | ⟨outcome, phase⟩ <;> simp [phase]
  | refused phase => simp [phase]

/-- Before a call registers, nothing is known of its entry, or its result is on its
way to `recent`, or there. -/
theorem of_early (stage : Stage s call index) (early : (s.call call).Early) :
    (∀ p ∈ s.applied, p.1 ≠ index) ∨ ∃ res, (index, res) ∈ s.applied ∧
      (s.loop = .notifying index res ∨ s.recent.lookup index = some res) := by
  cases stage with
  | early _ fresh => exact .inl fresh
  | noted known _ loop => exact .inr ⟨_, known, .inl loop⟩
  | stashed known _ found => exact .inr ⟨_, known, .inr found⟩
  | waits phase => exact (phase ▸ early :).elim
  | called _ phase => exact (phase ▸ early :).elim
  | sending _ phase => exact (phase ▸ early :).elim
  | sent _ phase => exact (phase ▸ early :).elim
  | received _ phase => exact (phase ▸ early :).elim
  | expired phase =>
      rcases phase with phase | ⟨outcome, phase⟩
      · exact (phase ▸ early :).elim
      · exact (phase ▸ early :).elim
  | refused phase => exact (phase ▸ early :).elim

/-- While a call waits its channel is empty or holds the result of its entry. -/
theorem of_waiting (stage : Stage s call index) (phase : s.call call = .waiting index) :
    s.resultCh call = none ∨ (∃ res, (index, res) ∈ s.applied ∧ s.resultCh call = some res) ∨
      call ∈ s.expired := by
  have notEarly : ¬ (s.call call).EarlyAt index := by
    rintro (early | early) <;> simp [phase] at early
  cases stage with
  | early early => exact absurd early notEarly
  | noted _ early => exact absurd early notEarly
  | stashed _ early => exact absurd early notEarly
  | waits _ _ _ empty => exact .inl empty
  | called _ _ _ _ empty => exact .inl empty
  | sending _ _ _ empty => exact .inl empty
  | sent known _ sent => exact .inr (.inl ⟨_, known, sent⟩)
  | received _ returned => simp [phase] at returned
  | expired _ expired => exact .inr (.inr expired)
  | refused returned => simp [phase] at returned

theorem of_timedOut (stage : Stage s call index) (phase : s.call call = .timedOut index) :
    call ∈ s.expired := by
  have notEarly : ¬ (s.call call).EarlyAt index := by
    rintro (early | early) <;> simp [phase] at early
  cases stage with
  | early early => exact absurd early notEarly
  | noted _ early => exact absurd early notEarly
  | stashed _ early => exact absurd early notEarly
  | waits waits => simp [phase] at waits
  | called _ waits => simp [phase] at waits
  | sending _ waits => simp [phase] at waits
  | sent _ waits => simp [phase] at waits
  | received _ returned => simp [phase] at returned
  | expired _ expired => exact expired
  | refused returned => simp [phase] at returned

end Stage

/-- The calls, the apply loop and the two maps fit together. -/
structure Orderly (s : Handlers) : Prop where
  stages : ∀ {call index}, (call, index) ∈ s.entries → Stage s call index
  indexed : ∀ {call index}, (s.call call).At index → (call, index) ∈ s.entries
  oneCall : ∀ {call call' index}, (call, index) ∈ s.entries → (call', index) ∈ s.entries →
    call = call'
  oneIndex : ∀ {call index index'}, (call, index) ∈ s.entries → (call, index') ∈ s.entries →
    index = index'
  oneResult : ∀ {index res res'}, (index, res) ∈ s.applied → (index, res') ∈ s.applied →
    res = res'
  keys : ∀ {call index}, s.pendingOps.lookup index = some call →
    (call, index) ∈ s.entries ∧ call ∈ s.passed
  kept : ∀ {index res}, s.recent.lookup index = some res → (index, res) ∈ s.applied
  late : ∀ {call}, call ∈ s.passed → ¬ (s.call call).Early
  unsent : ∀ {call}, call ∉ s.passed → s.resultCh call = none
  notes : ∀ {index res}, s.loop = .notifying index res → (index, res) ∈ s.applied
  sends : ∀ {call res}, s.loop = .sending call res → call ∈ s.passed ∧
    ∃ index, (call, index) ∈ s.entries ∧ (index, res) ∈ s.applied
  alive : s.dead = false

namespace Orderly

theorem initial (maxPending : Int) : Orderly (newServer maxPending) where
  stages given := by cases given
  indexed here := by rcases here with (here | here) | (here | here) <;> cases here
  oneCall given := by cases given
  oneIndex given := by cases given
  oneResult applied := by cases applied
  keys found := by cases found
  kept found := by cases found
  late passed := by cases passed
  unsent _ := rfl
  notes loop := by cases loop
  sends loop := by cases loop
  alive := rfl

variable {call index : Nat}

/-- Different calls have different indices. -/
theorem index_ne (orderly : Orderly s) {other index' : Nat} (ne : other ≠ call)
    (given : (other, index') ∈ s.entries) (here : (s.call call).At index) : index' ≠ index := by
  rintro rfl
  exact ne (orderly.oneCall given (orderly.indexed here))

theorem index_eq (orderly : Orderly s) {index' : Nat} (given : (call, index') ∈ s.entries)
    (here : (s.call call).At index) : index' = index :=
  orderly.oneIndex given (orderly.indexed here)

theorem not_passed (orderly : Orderly s) (early : (s.call call).Early) : call ∉ s.passed :=
  fun passed => orderly.late passed early

/-- Only the call that moves can get an index. -/
theorem indexed_setCall (orderly : Orderly s) {phase : Phase}
    (own : ∀ {index}, phase.At index → (call, index) ∈ s.entries) {other index : Nat}
    (on : ((s.setCall call phase).call other).At index) : (other, index) ∈ s.entries := by
  by_cases same : other = call
  · subst same
    rw [setCall_self] at on
    exact own on
  · rw [setCall_of_ne _ _ same] at on
    exact orderly.indexed on

theorem late_setCall (orderly : Orderly s) {phase : Phase}
    (own : phase.Early → (s.call call).Early) {other : Nat} (passed : other ∈ s.passed) :
    ¬ ((s.setCall call phase).call other).Early := by
  by_cases same : other = call
  · subst same
    rw [setCall_self]
    exact fun early => orderly.late passed (own early)
  · rw [setCall_of_ne _ _ same]
    exact orderly.late passed

/-- A call moves on without touching the maps, the channels and the apply loop. -/
theorem move (orderly : Orderly s) {phase : Phase} {server : Server}
    (own : ∀ {index}, (call, index) ∈ s.entries →
      Stage ({ s with server }.setCall call phase) call index)
    (under : ∀ {index}, phase.At index → (s.call call).At index)
    (early : phase.Early → (s.call call).Early) :
    Orderly ({ s with server }.setCall call phase) :=
  { orderly with
    stages := fun {other index} given => by
      by_cases same : other = call
      · subst same
        exact own given
      · exact (orderly.stages given).frame (setCall_of_ne _ _ same) rfl id (fun _ => id) rfl rfl
          id id
    indexed := orderly.indexed_setCall fun on => orderly.indexed (under on)
    late := orderly.late_setCall early }

/-- A call that has not registered returns. -/
theorem giveUp (orderly : Orderly s) {server : Server} {outcome : Except String Result}
    (early : (s.call call).Early) :
    Orderly ({ s with server }.setCall call (.returned outcome)) := by
  apply orderly.move
  · exact fun _ => .refused (setCall_self _ _ _) (orderly.not_passed early)
  · rintro index ((here | here) | (here | here)) <;> cases here
  · exact fun _ => early

theorem submit (orderly : Orderly s) {server : Server} (phase : s.call call = .idle) :
    Orderly ({ s with server }.setCall call .submitting) := by
  apply orderly.move
  · exact fun given => absurd phase (orderly.stages given).begun.1
  · rintro index ((here | here) | (here | here)) <;> cases here
  · exact fun _ => by rw [phase]; trivial

theorem append (orderly : Orderly s) (phase : s.call call = .submitting)
    (unused : ∀ p ∈ s.entries, p.2 ≠ index) (fresh : ∀ p ∈ s.applied, p.1 ≠ index) :
    Orderly { s.setCall call (.replicating index) with
      entries := (call, index) :: s.entries } := by
  have others : ∀ {other index'}, (other, index') ∈ s.entries → other ≠ call := by
    rintro other index' given rfl
    exact (orderly.stages given).begun.2 phase
  refine
    { orderly with
      stages := fun {other index'} given => ?_
      indexed := fun {other index'} here => ?_
      oneCall := fun {other other' index'} first second => ?_
      oneIndex := fun {other index' index''} first second => ?_
      keys := fun found => ?_
      late := orderly.late_setCall fun _ => by rw [phase]; trivial
      sends := fun loop => ?_ }
  · rcases List.mem_cons.mp given with new | old
    · cases new
      exact .early (.inl (setCall_self _ _ _)) fresh
    · exact (orderly.stages old).frame (setCall_of_ne _ _ (others old)) rfl id (fun _ => id) rfl
        rfl id id
  · by_cases same : other = call
    · subst same
      rw [setCall_self] at here
      rcases here with (here | here) | (here | here) <;> cases here
      exact List.mem_cons_self
    · rw [setCall_of_ne _ _ same] at here
      exact List.mem_cons_of_mem _ (orderly.indexed here)
  · rcases List.mem_cons.mp first with new | old
    · cases new
      rcases List.mem_cons.mp second with new' | old'
      · cases new'
        rfl
      · exact absurd rfl (unused _ old')
    · rcases List.mem_cons.mp second with new' | old'
      · cases new'
        exact absurd rfl (unused _ old)
      · exact orderly.oneCall old old'
  · rcases List.mem_cons.mp first with new | old
    · cases new
      rcases List.mem_cons.mp second with new' | old'
      · cases new'
        rfl
      · exact absurd rfl (others old')
    · rcases List.mem_cons.mp second with new' | old'
      · cases new'
        exact absurd rfl (others old)
      · exact orderly.oneIndex old old'
  · obtain ⟨given, passed⟩ := orderly.keys found
    exact ⟨List.mem_cons_of_mem _ given, passed⟩
  · obtain ⟨passed, index', given, applied⟩ := orderly.sends loop
    exact ⟨passed, index', List.mem_cons_of_mem _ given, applied⟩

theorem replicated (orderly : Orderly s) (phase : s.call call = .replicating index) :
    Orderly (s.setCall call (.registering index)) := by
  have here : (s.call call).At index := .inl (.inl phase)
  have early : (s.call call).Early := by rw [phase]; trivial
  apply orderly.move
  · intro index' given
    cases orderly.index_eq given here
    have moved : ((s.setCall call (.registering index)).call call).EarlyAt index :=
      .inr (setCall_self _ _ _)
    rcases (orderly.stages given).of_early early with fresh | ⟨res, known, loop | found⟩
    · exact .early moved fresh
    · exact .noted known moved loop
    · exact .stashed known moved found
  · rintro index' ((differs | same) | (differs | differs))
    · cases differs
    · cases same
      exact here
    · cases differs
    · cases differs
  · exact fun _ => early

/-- What a registration does to the maps and to other calls. -/
theorem register (orderly : Orderly s) {phase : Phase}
    {recent : Finmap fun _ : Nat => Result} (registering : s.call call = .registering index)
    (own : Stage ({ s with
      pendingOps := s.pendingOps.insert index call
      passed := call :: s.passed
      recent }.setCall call phase) call index)
    (under : ∀ {index'}, phase.At index' → index' = index) (after : ¬ phase.Early)
    (others : ∀ {index' res}, index' ≠ index → s.recent.lookup index' = some res →
      recent.lookup index' = some res)
    (kept : ∀ {index' res}, recent.lookup index' = some res →
      s.recent.lookup index' = some res) :
    Orderly ({ s with
      pendingOps := s.pendingOps.insert index call
      passed := call :: s.passed
      recent }.setCall call phase) := by
  have here : (s.call call).At index := .inl (.inr registering)
  have given := orderly.indexed here
  refine
    { orderly with
      stages := fun {other index'} known => ?_
      indexed := orderly.indexed_setCall fun on => under on ▸ given
      keys := fun {other index'} found => ?_
      kept := fun found => orderly.kept (kept found)
      late := fun {other} passed => ?_
      unsent := fun absent => orderly.unsent fun passed => absent (List.mem_cons_of_mem _ passed)
      sends := fun loop => ?_ }
  · by_cases same : other = call
    · subst same
      rw [orderly.index_eq known here]
      exact own
    · have ne := orderly.index_ne same known here
      refine (orderly.stages known).frame (setCall_of_ne _ _ same) rfl (fun held => ?_)
        (fun _ => others ne) rfl rfl (fun passed => ?_) id
      · exact (Finmap.lookup_insert_of_ne _ ne).trans held
      · exact (List.mem_cons.mp passed).resolve_left same
  · by_cases same : index' = index
    · subst same
      rw [setCall, Finmap.lookup_insert] at found
      cases found
      exact ⟨given, List.mem_cons_self⟩
    · rw [setCall, Finmap.lookup_insert_of_ne _ same] at found
      obtain ⟨known, passed⟩ := orderly.keys found
      exact ⟨known, List.mem_cons_of_mem _ passed⟩
  · by_cases same : other = call
    · subst same
      rwa [setCall_self]
    · rw [setCall_of_ne _ _ same]
      exact orderly.late ((List.mem_cons.mp passed).resolve_left same)
  · obtain ⟨passed, rest⟩ := orderly.sends loop
    exact ⟨List.mem_cons_of_mem _ passed, rest⟩

theorem collect (orderly : Orderly s) {res : Result} (phase : s.call call = .registering index)
    (stashed : s.recent.lookup index = some res) :
    Orderly ({ s with
      pendingOps := s.pendingOps.insert index call
      passed := call :: s.passed
      recent := s.recent.erase index }.setCall call (.returned (.ok res))) := by
  apply orderly.register phase
  · exact .received (orderly.kept stashed) (setCall_self _ _ _)
  · rintro index' ((here | here) | (here | here)) <;> cases here
  · exact id
  · intro index' res' ne found
    rwa [Finmap.lookup_erase_ne ne]
  · exact fun found => (Finmap.lookup_of_lookup_erase found).2

theorem wait (orderly : Orderly s) (phase : s.call call = .registering index)
    (nothing : s.recent.lookup index = none) :
    Orderly ({ s with
      pendingOps := s.pendingOps.insert index call
      passed := call :: s.passed }.setCall call (.waiting index)) := by
  have early : (s.call call).Early := by rw [phase]; trivial
  have empty := orderly.unsent (orderly.not_passed early)
  apply orderly.register phase
  · have key := Finmap.lookup_insert (a := index) (b := call) s.pendingOps
    have stage := orderly.stages (orderly.indexed (.inl (.inr phase)))
    rcases stage.of_early early with fresh | ⟨res, known, loop | found⟩
    · exact .waits (setCall_self _ _ _) fresh key empty
    · exact .called known (setCall_self _ _ _) loop key empty
    · rw [nothing] at found
      cases found
  · rintro index' ((here | here) | (here | here)) <;> cases here
    rfl
  · exact id
  · exact fun _ => id
  · exact id

/-- A registered call moves on; its own key and channel may be cleared. -/
theorem settle (orderly : Orderly s) {phase : Phase} {pendingOps : Finmap fun _ : Nat => Nat}
    {resultCh : Nat → Option Result} {expired : List Nat}
    (registered : (s.call call).RegisteredAt index)
    (own : Stage { s.setCall call phase with pendingOps, resultCh, expired } call index)
    (under : ∀ {index'}, phase.At index' → index' = index) (after : ¬ phase.Early)
    (subset : ∀ {index' other}, pendingOps.lookup index' = some other →
      s.pendingOps.lookup index' = some other)
    (held : ∀ {index'}, index' ≠ index → pendingOps.lookup index' = s.pendingOps.lookup index')
    (channels : ∀ {other}, other ≠ call → resultCh other = s.resultCh other)
    (channel : resultCh call = none ∨ resultCh call = s.resultCh call)
    (grows : ∀ {other}, other ∈ s.expired → other ∈ expired) :
    Orderly { s.setCall call phase with pendingOps, resultCh, expired } := by
  have here : (s.call call).At index := .inr registered
  refine
    { orderly with
      stages := fun {other index'} given => ?_
      indexed := orderly.indexed_setCall fun on => under on ▸ orderly.indexed here
      keys := fun found => orderly.keys (subset found)
      late := orderly.late_setCall fun early => absurd early after
      unsent := fun {other} absent => ?_ }
  · by_cases same : other = call
    · subst same
      rw [orderly.index_eq given here]
      exact own
    · exact (orderly.stages given).frame (setCall_of_ne _ _ same) (channels same)
        (held (orderly.index_ne same given here)).trans (fun _ => id) rfl rfl id grows
  · by_cases same : other = call
    · subst same
      exact channel.elim id fun kept => kept.trans (orderly.unsent absent)
    · exact (channels same).trans (orderly.unsent absent)

theorem receive (orderly : Orderly s) {result : Result} (phase : s.call call = .waiting index)
    (sent : s.resultCh call = some result) :
    Orderly { s.setCall call (.returned (.ok result)) with
      resultCh := Function.update s.resultCh call none } := by
  apply orderly.settle (.inl phase)
  · rcases (orderly.stages (orderly.indexed (.inr (.inl phase)))).of_waiting phase with
      empty | ⟨res, known, delivered⟩ | expired
    · rw [empty] at sent
      cases sent
    · rw [delivered] at sent
      cases sent
      exact .received known (setCall_self _ _ _)
    · exact .expired (.inr ⟨_, setCall_self _ _ _⟩) expired
  · rintro index' ((here | here) | (here | here)) <;> cases here
  · exact id
  · exact id
  · exact fun _ => rfl
  · exact fun ne => Function.update_of_ne ne _ _
  · exact .inl (Function.update_self _ _ _)
  · exact id

theorem timeout (orderly : Orderly s) (phase : s.call call = .waiting index)
    (fresh : ∀ p ∈ s.applied, p.1 ≠ index) :
    Orderly { s.setCall call (.timedOut index) with
      expired := if s.applied.any (·.1 == index) then s.expired else call :: s.expired } := by
  have none : s.applied.any (·.1 == index) = false := by simpa using fresh
  apply orderly.settle (.inl phase)
  · refine .expired (.inl (setCall_self _ _ _)) ?_
    rw [none]
    exact List.mem_cons_self
  · rintro index' ((here | here) | (here | here)) <;> cases here
    rfl
  · exact id
  · exact id
  · exact fun _ => rfl
  · exact fun _ => rfl
  · exact .inr rfl
  · intro other member
    rw [none]
    exact List.mem_cons_of_mem _ member

theorem cleanup (orderly : Orderly s) (phase : s.call call = .timedOut index) :
    Orderly { s.setCall call (.returned (.error errTimeout)) with
      pendingOps := s.pendingOps.erase index } := by
  apply orderly.settle (.inr phase)
  · refine .expired (.inr ⟨_, setCall_self _ _ _⟩) ?_
    exact (orderly.stages (orderly.indexed (.inr (.inr phase)))).of_timedOut phase
  · rintro index' ((here | here) | (here | here)) <;> cases here
  · exact id
  · exact fun found => (Finmap.lookup_of_lookup_erase found).2
  · exact fun ne => Finmap.lookup_erase_ne ne
  · exact fun _ => rfl
  · exact .inr rfl
  · exact id

/-- An entry is applied: its call is noted, or called if it waits. -/
theorem apply (orderly : Orderly s) {server : Server} {result : Result}
    (idle : s.loop = .idle) (fresh : ∀ p ∈ s.applied, p.1 ≠ index) :
    Orderly { s with
      server
      loop := .notifying index result
      applied := (index, result) :: s.applied } := by
  have busy : ∀ {loop : Loop}, s.loop = loop → loop ≠ .idle → False :=
    fun same ne => ne (same.symm.trans idle)
  refine
    { orderly with
      stages := fun {call index'} given => ?_
      oneResult := fun {index' res res'} first second => ?_
      kept := fun found => List.mem_cons_of_mem _ (orderly.kept found)
      notes := fun loop => ?_
      sends := fun loop => by cases loop }
  · have still : index' ≠ index → (∀ p ∈ s.applied, p.1 ≠ index') →
        ∀ p ∈ (index, result) :: s.applied, p.1 ≠ index' := by
      intro ne old p member
      rcases List.mem_cons.mp member with rfl | member
      · exact ne.symm
      · exact old p member
    cases orderly.stages given with
    | early phase old =>
        by_cases same : index' = index
        · subst same
          exact .noted List.mem_cons_self phase rfl
        · exact .early phase (still same old)
    | waits phase old key empty =>
        by_cases same : index' = index
        · subst same
          exact .called List.mem_cons_self phase rfl key empty
        · exact .waits phase (still same old) key empty
    | noted _ _ loop => exact (busy loop (by simp)).elim
    | called _ _ loop => exact (busy loop (by simp)).elim
    | sending _ _ loop => exact (busy loop (by simp)).elim
    | stashed known phase found => exact .stashed (List.mem_cons_of_mem _ known) phase found
    | sent known phase sent => exact .sent (List.mem_cons_of_mem _ known) phase sent
    | received known phase => exact .received (List.mem_cons_of_mem _ known) phase
    | expired phase expired => exact .expired phase expired
    | refused phase absent => exact .refused phase absent
  · rcases List.mem_cons.mp first with new | old
    · cases new
      rcases List.mem_cons.mp second with new' | old'
      · cases new'
        rfl
      · exact absurd rfl (fresh _ old')
    · rcases List.mem_cons.mp second with new' | old'
      · cases new'
        exact absurd rfl (fresh _ old)
      · exact orderly.oneResult old old'
  · cases loop
    exact List.mem_cons_self

/-- The apply loop finds a waiter: it was called. -/
theorem found (orderly : Orderly s) {result : Result} (loop : s.loop = .notifying index result)
    (waiter : s.pendingOps.lookup index = some call) :
    Orderly { s with
      pendingOps := s.pendingOps.erase index
      loop := .sending call result } := by
  obtain ⟨known, passed⟩ := orderly.keys waiter
  have applied := orderly.notes loop
  refine
    { orderly with
      stages := fun {other index'} given => ?_
      keys := fun found => orderly.keys (Finmap.lookup_of_lookup_erase found).2
      notes := fun differs => by cases differs
      sends := fun same => by
        cases same
        exact ⟨passed, index, known, applied⟩ }
  cases orderly.stages given with
  | early phase fresh => exact .early phase fresh
  | waits phase fresh key empty =>
      have ne : index' ≠ index := by
        rintro rfl
        exact fresh _ applied rfl
      exact .waits phase fresh ((Finmap.lookup_erase_ne ne).trans key) empty
  | noted _ phase same =>
      cases loop.symm.trans same
      cases orderly.oneCall known given
      exact absurd phase.early (orderly.late passed)
  | stashed known phase found => exact .stashed known phase found
  | called known' phase same _ empty =>
      cases loop.symm.trans same
      cases orderly.oneCall known given
      exact .sending known' phase rfl empty
  | sending _ _ differs =>
      rw [loop] at differs
      cases differs
  | sent known phase sent => exact .sent known phase sent
  | received known phase => exact .received known phase
  | expired phase expired => exact .expired phase expired
  | refused phase absent => exact .refused phase absent

/-- The apply loop finds no waiter: the call, if there is one, was noted. -/
theorem stash (orderly : Orderly s) {result : Result} {evicted : List Nat}
    {recent : Finmap fun _ : Nat => Result} (loop : s.loop = .notifying index result)
    (nobody : s.pendingOps.lookup index = none)
    (bounded : evict s.maxPending (s.recent.insert index result) evicted = some recent)
    (spares : ∀ p ∈ s.entries, (s.call p.1).Early → p.2 ∉ evicted) :
    Orderly { s with recent, loop := .idle } := by
  have applied := orderly.notes loop
  refine
    { orderly with
      stages := fun {call index'} given => ?_
      kept := fun {index' res} found => ?_
      notes := fun differs => by cases differs
      sends := fun differs => by cases differs }
  · have spared : (s.call call).EarlyAt index' →
        recent.lookup index' = (s.recent.insert index result).lookup index' :=
      fun phase => lookup_evict bounded (spares _ given phase.early)
    cases orderly.stages given with
    | early phase fresh => exact .early phase fresh
    | waits phase fresh key empty => exact .waits phase fresh key empty
    | noted known phase same =>
        cases loop.symm.trans same
        exact .stashed known phase ((spared phase).trans (Finmap.lookup_insert _))
    | stashed known phase found =>
        refine .stashed known phase ((spared phase).trans ?_)
        by_cases same : index' = index
        · subst same
          rw [Finmap.lookup_insert, orderly.oneResult known applied]
        · rwa [Finmap.lookup_insert_of_ne _ same]
    | called _ _ same key =>
        cases loop.symm.trans same
        rw [nobody] at key
        cases key
    | sending _ _ differs =>
        rw [loop] at differs
        cases differs
    | sent known phase sent => exact .sent known phase sent
    | received known phase => exact .received known phase
    | expired phase expired => exact .expired phase expired
    | refused phase absent => exact .refused phase absent
  · rcases lookup_of_stash bounded found with ⟨rfl, rfl⟩ | old
    · exact applied
    · exact orderly.kept old

theorem send (orderly : Orderly s) {result : Result} (loop : s.loop = .sending call result) :
    Orderly { s with resultCh := offer s.resultCh call result, loop := .idle } := by
  obtain ⟨passed, index, known, applied⟩ := orderly.sends loop
  refine
    { orderly with
      stages := fun {other index'} given => ?_
      unsent := fun {other} absent => ?_
      notes := fun differs => by cases differs
      sends := fun differs => by cases differs }
  · cases orderly.stages given with
    | early phase fresh => exact .early phase fresh
    | waits phase fresh key empty =>
        have ne : other ≠ call := by
          rintro rfl
          exact fresh _ applied (orderly.oneIndex known given)
        exact .waits phase fresh key ((offer_of_ne _ ne).trans empty)
    | noted _ _ differs =>
        rw [loop] at differs
        cases differs
    | stashed known phase found => exact .stashed known phase found
    | called _ _ differs =>
        rw [loop] at differs
        cases differs
    | sending known phase same empty =>
        cases loop.symm.trans same
        exact .sent known phase (by simp [offer, empty])
    | sent known phase sent =>
        refine .sent known phase ?_
        by_cases same : other = call
        · subst same
          simp [offer, sent]
        · exact (offer_of_ne _ same).trans sent
    | received known phase => exact .received known phase
    | expired phase expired => exact .expired phase expired
    | refused phase absent => exact .refused phase absent
  · have ne : other ≠ call := by
      rintro rfl
      exact absent passed
    exact (offer_of_ne _ ne).trans (orderly.unsent absent)

theorem step (orderly : Orderly s) (serial : s.Serial a) (spares : s.Spares a)
    (inTime : s.InTime a) (effect : Effect s a s') : Orderly s' := by
  cases effect with
  | answer phase => exact orderly.giveUp (by rw [phase]; trivial)
  | submit phase => exact orderly.submit phase
  | append phase => exact orderly.append phase serial.1 serial.2
  | replicated phase => exact orderly.replicated phase
  | fail phase =>
      apply orderly.giveUp
      rcases phase with phase | ⟨index, phase⟩ <;> rw [phase] <;> trivial
  | refuse phase => exact orderly.giveUp (by rw [phase]; trivial)
  | collect phase _ _ stashed => exact orderly.collect phase stashed
  | wait phase _ _ nothing => exact orderly.wait phase nothing
  | receive phase sent => exact orderly.receive phase sent
  | timeout phase =>
      exact orderly.timeout phase (inTime _ (orderly.indexed (.inr (.inl phase))) rfl)
  | cleanup phase => exact orderly.cleanup phase
  | shutdown _ died =>
      rw [orderly.alive] at died
      cases died
  | restore => exact serial.elim
  | apply idle => exact orderly.apply idle serial
  | found loop waiter => exact orderly.found loop waiter
  | stash loop nobody bounded => exact orderly.stash loop nobody bounded spares
  | send loop => exact orderly.send loop
  | kill => exact serial.elim

end Orderly

/-! ## The theorem -/

/-- The call has received the result, or does so by what is left of the steps of the
apply loop and its own: the result is taken to the channel, sent and received. -/
def Delivers (json : Json) (s : Handlers) (call : Nat) (res : Result) : Prop :=
  ∃ rest s', rest <:+ [.notify [], .send, .receive call] ∧
    perform (step json) (fun _ _ => True) s rest = some s' ∧
    s'.call call = .returned (.ok res)

namespace Delivers

variable {call index : Nat} {res : Result}

theorem of_received (phase : s.call call = .returned (.ok res)) : s.Delivers json call res :=
  ⟨[], s, List.nil_suffix, rfl, phase⟩

theorem of_sent (phase : s.call call = .waiting index) (sent : s.resultCh call = some res) :
    s.Delivers json call res := by
  refine ⟨[.receive call], ?_⟩
  simp [List.suffix_cons_iff, perform, step, phase, sent, setCall]

theorem of_sending (phase : s.call call = .waiting index) (loop : s.loop = .sending call res)
    (empty : s.resultCh call = none) : s.Delivers json call res := by
  refine ⟨[.send, .receive call], ?_⟩
  simp [perform, step, loop, offer, empty, phase, setCall]

theorem of_called (phase : s.call call = .waiting index)
    (loop : s.loop = .notifying index res) (key : s.pendingOps.lookup index = some call)
    (empty : s.resultCh call = none) : s.Delivers json call res := by
  refine ⟨[.notify [], .send, .receive call], ?_⟩
  simp [perform, step, loop, notifyWaiter, key, offer, empty, phase, setCall]

end Delivers

theorem orderly_of_run {maxPending : Int}
    (run : Run (step json) (fun s a => s.Serial a ∧ s.Spares a ∧ s.InTime a)
      (newServer maxPending) s) : Orderly s := by
  apply run.invariant
  · exact .initial maxPending
  · rintro t u a orderly ⟨serial, spares, inTime⟩ stepped
    exact orderly.step serial spares inTime (effect_of_step stepped)

/-- The handoff loses no result: in every run in which no result is evicted that a
call has yet to pick up, and no timer fires after the entry of its call is applied, a
call past the checks of its registration receives exactly the result its entry was
applied with, unless its timer fired before. -/
theorem handoff_delivers {maxPending : Int}
    (run : Run (step json) (fun s a => s.Serial a ∧ s.Spares a ∧ s.InTime a)
      (newServer maxPending) s) {call index : Nat} {res : Result}
    (given : (call, index) ∈ s.entries) (passed : call ∈ s.passed)
    (applied : (index, res) ∈ s.applied) (waited : call ∉ s.expired) :
    s.Delivers json call res := by
  have orderly := orderly_of_run run
  have late := orderly.late passed
  cases orderly.stages given with
  | early phase => exact absurd phase.early late
  | noted _ phase => exact absurd phase.early late
  | stashed _ phase => exact absurd phase.early late
  | waits _ fresh => exact absurd rfl (fresh _ applied)
  | called known phase loop key empty =>
      cases orderly.oneResult applied known
      exact .of_called phase loop key empty
  | sending known phase loop empty =>
      cases orderly.oneResult applied known
      exact .of_sending phase loop empty
  | sent known phase sent =>
      cases orderly.oneResult applied known
      exact .of_sent phase sent
  | received known phase =>
      cases orderly.oneResult applied known
      exact .of_received phase
  | expired _ expired => exact absurd expired waited
  | refused _ absent => exact absurd passed absent

/-- Two entries of other servers are applied and one of them is evicted before call `0`
has its entry, whose result is stashed and picked up. -/
def spared : List HandlerAction :=
  [.apply (.command [] 1) 0, .notify [], .apply (.command [] 2) 0, .notify [1],
    .submit 0 putOp none 0, .append 0 3, .apply (.command [] 3) 0, .notify [2],
    .replicated 0, .register 0]

theorem handoff_delivers_spared :
    ∃ s, Run (step putJson) (fun s a => s.Serial a ∧ s.Spares a ∧ s.InTime a) (newServer 1) s ∧
      (3, {}) ∈ s.applied ∧ s.Delivers putJson 0 {} := by
  have reached : ∃ s, Run (step putJson) (fun s a => s.Serial a ∧ s.Spares a ∧ s.InTime a)
      (newServer 1) s ∧ (0, 3) ∈ s.entries ∧ 0 ∈ s.passed ∧ (3, {}) ∈ s.applied ∧
      0 ∉ s.expired :=
    exists_run_of_perform spared _ (by decide +kernel)
  obtain ⟨s, run, given, passed, applied, waited⟩ := reached
  exact ⟨s, run, applied, handoff_delivers run given passed applied waited⟩

/-- The result of call `0` is stashed, and evicted when another entry is applied. -/
def evicted : List HandlerAction :=
  [.submit 0 putOp none 0, .append 0 1, .apply (.command [] 1) 0, .notify [],
    .apply (.command [] 2) 0, .notify [1], .replicated 0, .register 0]

/-- Call `0` has its result in its channel when its timer fires. -/
def overtaken : List HandlerAction :=
  [.submit 0 putOp none 0, .append 0 1, .replicated 0, .register 0,
    .apply (.command [] 1) 0, .notify [], .send, .timeout 0, .cleanup 0]

/-- In the first run the call is left waiting for a result that is nowhere; in the
second one it has the result and returns a timeout. -/
theorem handoff_drops_result :
    (∃ s, Run (step putJson) (fun s a => s.Serial a ∧ s.InTime a) (newServer 1) s ∧
      (0, 1) ∈ s.entries ∧ 0 ∈ s.passed ∧ (1, {}) ∈ s.applied ∧ 0 ∉ s.expired ∧
      s.call 0 = .waiting 1 ∧ s.resultCh 0 = none ∧ s.pendingOps.lookup 1 = some 0 ∧
      s.recent.lookup 1 = none ∧ s.loop = .idle) ∧
    ∃ s, Run (step putJson) (fun s a => s.Serial a ∧ s.Spares a) (newServer 1) s ∧
      (0, 1) ∈ s.entries ∧ 0 ∈ s.passed ∧ (1, {}) ∈ s.applied ∧ 0 ∉ s.expired ∧
      s.call 0 = .returned (.error errTimeout) :=
  ⟨exists_run_of_perform evicted _ (by decide +kernel),
    exists_run_of_perform overtaken _ (by decide +kernel)⟩

end Handlers

end DistribKV.KV
