import DistribKV.KV.Handlers

/-!
# Leaked waiters

A call of `submitOperation` registers on one path and leaves on five.  When its
result is already stashed it returns without taking its key out of `pendingOps`, and
nobody else does; on the other four paths the key goes.
-/

namespace DistribKV.KV

open Consensus

namespace Handlers

variable {json : Json} {s s' : Handlers} {a : HandlerAction}

/-- A call that registers now finds no result stashed. -/
def FindsNothing (s : Handlers) : Phase → Prop
  | .registering index => s.dead = false → s.pendingOps.keys.card < s.maxPending →
      s.recent.lookup index = none
  | _ => True

instance (s : Handlers) : DecidablePred s.FindsNothing
  | .registering _ => inferInstanceAs (Decidable (s.dead = false → _))
  | .idle | .submitting | .replicating _ | .waiting _ | .timedOut _ | .returned _ =>
      .isTrue trivial

/-- A call registers before its result is stashed. -/
@[reducible] def RegistersFirst (s : Handlers) : HandlerAction → Prop
  | .register call => s.FindsNothing (s.call call)
  | _ => True

instance (s : Handlers) : DecidablePred s.RegistersFirst := HandlerAction.decidable _

/-- Every waiter belongs to a call that will take it out: it is registered, and
nobody has sent to it or is about to. -/
structure LeakFree (s : Handlers) : Prop where
  registered : ∀ {index call}, s.pendingOps.lookup index = some call →
    (s.call call).RegisteredAt index
  silent : ∀ {call}, (s.call call).Early ∨ call ∈ s.waiters →
    s.resultCh call = none ∧ ∀ result, s.loop ≠ .sending call result
  dead : s.dead = true → s.pendingOps = ∅

namespace LeakFree

theorem initial (maxPending : Int) : LeakFree (newServer maxPending) where
  registered found := by simp [newServer] at found
  silent _ := ⟨rfl, fun _ sending => by cases sending⟩
  dead died := by cases died

/-- The calls with a waiter are registered. -/
theorem not_mem_waiters (leakFree : LeakFree s) {call : Nat} (early : (s.call call).Early) :
    call ∉ s.waiters := by
  intro waits
  obtain ⟨index, found⟩ := mem_waiters.mp waits
  exact (leakFree.registered found).not_early early

/-- A step that registers nobody: what is left of the map still belongs to
registered calls, and their channels and those of the calls to come stay empty. -/
theorem shrink (leakFree : LeakFree s)
    (kept : ∀ {index call}, s'.pendingOps.lookup index = some call →
      s.pendingOps.lookup index = some call)
    (registered : ∀ {index call}, s'.pendingOps.lookup index = some call →
      (s.call call).RegisteredAt index → (s'.call call).RegisteredAt index)
    (early : ∀ {call}, (s'.call call).Early → (s.call call).Early)
    (silent : ∀ {call}, (s'.call call).Early ∨ call ∈ s'.waiters →
      s'.resultCh call = s.resultCh call ∧
        ∀ result, s'.loop = .sending call result → s.loop = .sending call result)
    (dead : s'.dead = true → s.dead = true ∨ s'.pendingOps = ∅) : LeakFree s' where
  registered found := registered found (leakFree.registered (kept found))
  silent {call} quiet := by
    obtain ⟨resultCh, loop⟩ := silent quiet
    have before : (s.call call).Early ∨ call ∈ s.waiters := by
      refine quiet.imp early fun waits => ?_
      obtain ⟨index, found⟩ := mem_waiters.mp waits
      exact mem_waiters.mpr ⟨index, kept found⟩
    obtain ⟨empty, alone⟩ := leakFree.silent before
    exact ⟨resultCh.trans empty, fun result sending => alone result (loop result sending)⟩
  dead died := by
    rcases dead died with before | empty
    · have none := leakFree.dead before
      refine Finmap.ext_lookup fun index => ?_
      cases found : s'.pendingOps.lookup index with
      | none => rfl
      | some call =>
          have old := kept found
          rw [none] at old
          cases old
    · exact empty

/-- A call moves on, and is still registered if it has a key. -/
theorem of_call (leakFree : LeakFree s) {call : Nat} {phase : Phase}
    (moved : s'.call = Function.update s.call call phase)
    (pendingOps : s'.pendingOps = s.pendingOps)
    (key : ∀ {index}, s.pendingOps.lookup index = some call → phase.RegisteredAt index)
    (early : phase.Early → (s.call call).Early) (resultCh : s'.resultCh = s.resultCh)
    (loop : s'.loop = s.loop) (dead : s'.dead = s.dead) : LeakFree s' := by
  apply leakFree.shrink
  · intro index other found
    rwa [pendingOps] at found
  · intro index other found registered
    by_cases same : other = call
    · subst same
      rw [moved, Function.update_self]
      exact key (pendingOps ▸ found)
    · rwa [moved, Function.update_of_ne same]
  · intro other quiet
    by_cases same : other = call
    · subst same
      rw [moved, Function.update_self] at quiet
      exact early quiet
    · rwa [moved, Function.update_of_ne same] at quiet
  · intro other _
    rw [resultCh, loop]
    exact ⟨rfl, fun _ => id⟩
  · rw [dead]
    exact .inl

/-- A call that has not registered has no key. -/
theorem of_early (leakFree : LeakFree s) {call : Nat} {phase : Phase}
    (before : (s.call call).Early) (moved : s'.call = Function.update s.call call phase)
    (pendingOps : s'.pendingOps = s.pendingOps) (resultCh : s'.resultCh = s.resultCh)
    (loop : s'.loop = s.loop) (dead : s'.dead = s.dead) : LeakFree s' :=
  leakFree.of_call moved pendingOps
    (fun found => absurd before (leakFree.registered found).not_early) (fun _ => before)
    resultCh loop dead

theorem wait (leakFree : LeakFree s) {call index : Nat}
    (phase : s.call call = .registering index) (alive : s.dead = false) :
    LeakFree ({ s with
      pendingOps := s.pendingOps.insert index call
      passed := call :: s.passed }.setCall call (.waiting index)) where
  registered {other caller} found := by
    by_cases same : other = index
    · subst same
      rw [setCall, Finmap.lookup_insert] at found
      cases found
      rw [setCall_self]
      exact .inl rfl
    · rw [setCall, Finmap.lookup_insert_of_ne _ same] at found
      have registered := leakFree.registered found
      have ne : caller ≠ call := by
        rintro rfl
        exact registered.not_early (by rw [phase]; trivial)
      rwa [setCall_of_ne _ _ ne]
  silent {other} quiet := by
    apply leakFree.silent
    by_cases same : other = call
    · rw [same, phase]
      exact .inl trivial
    rcases quiet with early | waits
    · rw [setCall_of_ne _ _ same] at early
      exact .inl early
    · obtain ⟨at', found⟩ := mem_waiters.mp waits
      right
      refine mem_waiters.mpr ⟨at', ?_⟩
      by_cases here : at' = index
      · subst here
        rw [setCall, Finmap.lookup_insert] at found
        cases found
        exact absurd rfl same
      · rwa [setCall, Finmap.lookup_insert_of_ne _ here] at found
  dead died := by
    rw [setCall] at died
    simp [alive] at died

/-- A waiter has one key. -/
theorem index_unique (leakFree : LeakFree s) {index other call : Nat}
    (found : s.pendingOps.lookup index = some call)
    (found' : s.pendingOps.lookup other = some call) : index = other :=
  (leakFree.registered found).index_eq (leakFree.registered found')

theorem receive (leakFree : LeakFree s) {call : Nat} {result outcome : Result}
    (sent : s.resultCh call = some result) :
    LeakFree { s.setCall call (.returned (.ok outcome)) with
      resultCh := Function.update s.resultCh call none } := by
  -- somebody has sent to the call, so its key is gone
  have gone : call ∉ s.waiters := by
    intro waits
    rw [(leakFree.silent (.inr waits)).1] at sent
    cases sent
  apply leakFree.shrink
  · exact id
  · intro index other found registered
    have ne : other ≠ call := by
      rintro rfl
      exact gone (mem_waiters.mpr ⟨index, found⟩)
    rwa [setCall_of_ne _ _ ne]
  · intro other quiet
    by_cases same : other = call
    · subst same
      rw [setCall_self] at quiet
      exact quiet.elim
    · rwa [setCall_of_ne _ _ same] at quiet
  · intro other quiet
    have ne : other ≠ call := by
      rintro rfl
      rcases quiet with early | waits
      · rw [setCall_self] at early
        exact early
      · exact gone waits
    exact ⟨Function.update_of_ne ne _ _, fun _ => id⟩
  · exact .inl

theorem cleanup (leakFree : LeakFree s) {call index : Nat} {outcome : Except String Result}
    (phase : s.call call = .timedOut index) :
    LeakFree { s.setCall call (.returned outcome) with
      pendingOps := s.pendingOps.erase index } := by
  apply leakFree.shrink
  · exact fun found => (Finmap.lookup_of_lookup_erase found).2
  · intro other caller found registered
    have ne : caller ≠ call := by
      rintro rfl
      rw [phase] at registered
      exact (Finmap.lookup_of_lookup_erase found).1 (registered.index_eq (.inr rfl))
    rwa [setCall_of_ne _ _ ne]
  · intro other quiet
    by_cases same : other = call
    · subst same
      rw [setCall_self] at quiet
      exact quiet.elim
    · rwa [setCall_of_ne _ _ same] at quiet
  · exact fun _ => ⟨rfl, fun _ => id⟩
  · exact .inl

/-- The apply loop takes the key of a waiter before it sends. -/
theorem found (leakFree : LeakFree s) {index call : Nat} {result : Result}
    (waiter : s.pendingOps.lookup index = some call) :
    LeakFree { s with
      pendingOps := s.pendingOps.erase index
      loop := .sending call result } := by
  apply leakFree.shrink
  · exact fun found => (Finmap.lookup_of_lookup_erase found).2
  · exact fun _ => id
  · exact id
  · intro other quiet
    have ne : other ≠ call := by
      rintro rfl
      rcases quiet with early | waits
      · exact (leakFree.registered waiter).not_early early
      · obtain ⟨at', found⟩ := mem_waiters.mp waits
        obtain ⟨ne, found⟩ := Finmap.lookup_of_lookup_erase found
        exact ne (leakFree.index_unique found waiter)
    refine ⟨rfl, fun _ sending => ?_⟩
    cases sending
    exact absurd rfl ne
  · exact .inl

theorem kill (leakFree : LeakFree s) : LeakFree s.kill := by
  have emptied : s.kill.pendingOps = ∅ := by
    unfold Handlers.kill
    split
    next died => exact leakFree.dead died
    · rfl
  have call : s.kill.call = s.call := by
    unfold Handlers.kill
    split <;> rfl
  have loop : s.kill.loop = s.loop := by
    unfold Handlers.kill
    split <;> rfl
  have nobody : ∀ {index caller}, s.kill.pendingOps.lookup index ≠ some caller := by
    intro index caller found
    rw [emptied] at found
    cases found
  apply leakFree.shrink
  · exact fun found => absurd found nobody
  · exact fun found => absurd found nobody
  · rw [call]
    exact id
  · intro other quiet
    rcases quiet with early | waits
    · rw [call] at early
      rw [kill_resultCh (leakFree.not_mem_waiters early), loop]
      exact ⟨rfl, fun _ => id⟩
    · obtain ⟨index, found⟩ := mem_waiters.mp waits
      exact absurd found nobody
  · exact fun _ => .inr emptied

theorem step (leakFree : LeakFree s) (first : s.RegistersFirst a) (effect : Effect s a s') :
    LeakFree s' := by
  cases effect with
  | answer phase => exact leakFree.of_early (by rw [phase]; trivial) rfl rfl rfl rfl rfl
  | submit phase => exact leakFree.of_early (by rw [phase]; trivial) rfl rfl rfl rfl rfl
  | append phase => exact leakFree.of_early (by rw [phase]; trivial) rfl rfl rfl rfl rfl
  | replicated phase => exact leakFree.of_early (by rw [phase]; trivial) rfl rfl rfl rfl rfl
  | refuse phase => exact leakFree.of_early (by rw [phase]; trivial) rfl rfl rfl rfl rfl
  | fail phase =>
      refine leakFree.of_early ?_ rfl rfl rfl rfl rfl
      rcases phase with phase | ⟨index, phase⟩ <;> rw [phase] <;> trivial
  | collect phase alive room stashed =>
      simp only [RegistersFirst, phase] at first
      rw [first alive room] at stashed
      cases stashed
  | wait phase alive => exact leakFree.wait phase alive
  | receive _ sent => exact leakFree.receive sent
  | timeout phase =>
      refine leakFree.of_call rfl rfl (fun found => ?_) (fun early => early.elim) rfl rfl rfl
      have registered := leakFree.registered found
      rw [phase] at registered
      exact .inr (congrArg _ (Phase.RegisteredAt.index_eq (.inl rfl) registered))
  | cleanup phase => exact leakFree.cleanup phase
  | shutdown _ died =>
      refine leakFree.of_call rfl rfl (fun found => ?_) (fun early => early.elim) rfl rfl rfl
      rw [leakFree.dead died] at found
      cases found
  | restore => exact ⟨leakFree.registered, leakFree.silent, leakFree.dead⟩
  | apply =>
      exact leakFree.shrink id (fun _ => id) id
        (fun _ => ⟨rfl, fun _ sending => by cases sending⟩) .inl
  | found _ waiter => exact leakFree.found waiter
  | stash =>
      exact leakFree.shrink id (fun _ => id) id
        (fun _ => ⟨rfl, fun _ sending => by cases sending⟩) .inl
  | send loop =>
      refine leakFree.shrink id (fun _ => id) id (fun {other} quiet => ?_) .inl
      refine ⟨offer_of_ne _ ?_, fun _ sending => by cases sending⟩
      rintro rfl
      exact (leakFree.silent quiet).2 _ loop
  | kill => exact leakFree.kill

end LeakFree

theorem leakFree_of_run {maxPending : Int}
    (run : Run (step json) RegistersFirst (newServer maxPending) s) : LeakFree s := by
  apply run.invariant
  · exact .initial maxPending
  · intro t u a leakFree first stepped
    exact leakFree.step first (effect_of_step stepped)

/-- As many calls are registered as the map has keys. -/
theorem LeakFree.exists_registered (leakFree : LeakFree s) :
    ∃ waiting : Finset Nat, waiting.card = s.pendingOps.keys.card ∧
      ∀ call ∈ waiting, ∃ index, (s.call call).RegisteredAt index := by
  have value : ∀ index ∈ s.pendingOps.keys, ∃ call, s.pendingOps.lookup index = some call :=
    fun index member => Finmap.mem_iff.mp (Finmap.mem_keys.mp member)
  refine ⟨s.pendingOps.keys.image fun index => (s.pendingOps.lookup index).getD 0,
    Finset.card_image_of_injOn ?_, ?_⟩
  · intro index member other member' same
    obtain ⟨call, found⟩ := value index member
    obtain ⟨call', found'⟩ := value other member'
    simp only [found, found', Option.getD_some] at same
    exact leakFree.index_unique found (same ▸ found')
  · intro call member
    obtain ⟨index, inKeys, rfl⟩ := Finset.mem_image.mp member
    obtain ⟨call, found⟩ := value index inKeys
    rw [found]
    exact ⟨index, leakFree.registered found⟩

/-- No leaked waiters: in every run in which calls register before their results are
stashed, each key of `pendingOps` is the index of a call that has registered and not
returned, so that the map is empty when no call is registered, and
`ErrTooManyPending` is returned only while at least `maxPending` other calls are. -/
theorem no_leaked_waiters {maxPending : Int}
    (run : Run (step json) RegistersFirst (newServer maxPending) s) :
    (∀ index ∈ s.pendingOps, ∃ call, s.pendingOps.lookup index = some call ∧
        (s.call call).RegisteredAt index) ∧
      ((∀ call index, ¬ (s.call call).RegisteredAt index) → s.pendingOps = ∅) ∧
      ∀ call s', s.step json (.register call) = some s' →
        s'.call call = .returned (.error errTooManyPending) →
        ∃ waiting : Finset Nat, s.maxPending ≤ waiting.card ∧ call ∉ waiting ∧
          ∀ other ∈ waiting, ∃ index, (s.call other).RegisteredAt index := by
  have leakFree := leakFree_of_run run
  refine ⟨?_, ?_, ?_⟩
  · intro index member
    obtain ⟨call, found⟩ := Finmap.mem_iff.mp member
    exact ⟨call, found, leakFree.registered found⟩
  · intro returned
    refine Finmap.ext_lookup fun index => ?_
    cases found : s.pendingOps.lookup index with
    | none => rfl
    | some call => exact absurd (leakFree.registered found) (returned call index)
  · intro call s' stepped refused
    obtain ⟨waiting, card, registered⟩ := leakFree.exists_registered
    cases effect_of_step stepped with
    | refuse phase full =>
        rw [setCall_self] at refused
        cases refused
        rcases full with ⟨-, impossible⟩ | ⟨full, -⟩
        · exact absurd impossible (by decide)
        refine ⟨waiting, card ▸ full, fun member => ?_, registered⟩
        obtain ⟨index, here⟩ := registered call member
        rw [phase] at here
        exact here.not_early trivial
    | collect =>
        rw [setCall_self] at refused
        cases refused
    | wait =>
        rw [setCall_self] at refused
        cases refused

/-- An encoder for which every command puts one value. -/
def putJson : Json := .ofCommands fun _ => .ok { op := 2, key := "x", value := "a" }

/-- What the handler of a `Put` submits. -/
def putOp : Op := ⟨.put, "x", "a", 0, 0⟩

/-- Call `0` waits, and call `1` is about to register. -/
def crowded : List HandlerAction :=
  [.submit 0 putOp none 0, .append 0 1, .replicated 0, .register 0,
    .submit 1 putOp none 0, .append 1 2, .replicated 1]

/-- A call that is refused where there is room for one finds another one waiting. -/
theorem no_leaked_waiters_crowded :
    ∃ s s', Run (step putJson) RegistersFirst (newServer 1) s ∧
      s.step putJson (.register 1) = some s' ∧
      s'.call 1 = .returned (.error errTooManyPending) ∧
      ∃ waiting : Finset Nat, 1 ≤ waiting.card ∧ 1 ∉ waiting ∧
        ∀ other ∈ waiting, ∃ index, (s.call other).RegisteredAt index := by
  have reached : ∃ s, Run (step putJson) RegistersFirst (newServer 1) s ∧ s.maxPending = 1 ∧
      (s.step putJson (.register 1)).any (fun s' =>
        decide (s'.call 1 = .returned (.error errTooManyPending))) = true :=
    exists_run_of_perform crowded _ (by decide +kernel)
  obtain ⟨s, run, one, refused⟩ := reached
  cases stepped : s.step putJson (.register 1) with
  | none => simp [stepped] at refused
  | some s' =>
      rw [stepped] at refused
      have refused := of_decide_eq_true refused
      exact ⟨s, s', run, stepped, refused, one ▸ (no_leaked_waiters run).2.2 1 s' stepped refused⟩

/-- Call `0` finds its result stashed when it registers. -/
def lateRegistration : List HandlerAction :=
  [.submit 0 putOp none 0, .append 0 1, .apply (.command [] 1) 0, .notify [],
    .replicated 0, .register 0,
    .submit 1 putOp none 0, .append 1 2, .replicated 1, .register 1]

/-- The call returns and leaves its key; the only other call there has ever been is
then refused although nobody waits. -/
theorem stashed_result_leaks_waiter :
    ∃ s, Run (step putJson) (fun _ _ => True) (newServer 1) s ∧
      s.entries = [(1, 2), (0, 1)] ∧ s.pendingOps.lookup 1 = some 0 ∧
      s.call 0 = .returned (.ok {}) ∧
      s.call 1 = .returned (.error errTooManyPending) :=
  exists_run_of_perform lateRegistration _ (by decide +kernel)

end Handlers

end DistribKV.KV
