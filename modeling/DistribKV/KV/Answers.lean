import DistribKV.KV.Handoff

/-!
# Where answers come from

The handoff module says when a call gets the result of its entry.  This module is
about what a call that gets a result may conclude from it: the entry at the index of
the call was applied with that result, or the server was shutting down.  Nothing is
assumed about the order of registration, timeouts and eviction.

What makes a result right is a parameter, so that the whole service can say more
about it than that it was applied.
-/

namespace DistribKV.KV

open Consensus

/-- The call has the word of `ReplicateCommand` that its entry is committed. -/
def Phase.Confirmed : Phase → Prop
  | .registering _ | .waiting _ | .timedOut _ => True
  | .returned outcome => outcome.isOk = true
  | _ => False

/-- The call has made no entry yet. -/
def Phase.Unentered (phase : Phase) : Prop := phase = .idle ∨ phase = .submitting

/-- The call has failed, with the text of a missing key. -/
def Phase.Misleading (phase : Phase) : Prop := phase = .returned (.error errKeyNotFound)

theorem serializeErr_ne (err : String) : "serialize op: " ++ err ≠ errKeyNotFound := by
  intro same
  have texts := congrArg String.toList same
  simp [errKeyNotFound] at texts

theorem replicateErr_ne (err : Raft.ReplicateError) : replicateErr err ≠ errKeyNotFound := by
  cases err with
  | persist err =>
      intro same
      have texts : ("persist command: " ++ err).toList = errKeyNotFound.toList :=
        congrArg String.toList same
      simp [errKeyNotFound] at texts
  | _ => decide

namespace Handlers

variable {json : Json} {s s' : Handlers} {a : HandlerAction}
variable {whose : Nat → Prop} {right right' : Nat → Result → Prop} {call : Nat} {result : Result}

/-- What `Kill` sends to those that are waiting. -/
def shutdownResult : Result := { err := some errShutdown }

/-- The handlers of requests submit operations without ids, which the cache of
results knows nothing about. -/
@[reducible] def Anonymous : HandlerAction → Prop
  | .submit _ op _ _ => op.clientId = 0
  | _ => True

instance : DecidablePred Anonymous := HandlerAction.decidable _

/-- The operation of a call has no ids. -/
@[reducible] def AnonymousCall (call : Nat) : HandlerAction → Prop
  | .submit other op _ _ => other = call → op.clientId = 0
  | _ => True

instance (call : Nat) : DecidablePred (AnonymousCall call) := HandlerAction.decidable _

theorem Anonymous.anonymousCall (anonymous : Anonymous a) (call : Nat) : AnonymousCall call a := by
  cases a with
  | submit => exact fun _ => anonymous
  | _ => trivial

/-- An operation without ids goes to `ReplicateCommand`, unless it cannot be
encoded. -/
theorem submit_of_anonymous {op : Op} {encodeErr : Option String} {now : Int}
    (anonymous : op.clientId = 0)
    (stepped : s.step json (.submit call op encodeErr now) = some s') :
    s.call call = .idle ∧
      (encodeErr = none ∧ s' = s.setCall call .submitting ∨
        ∃ err, s' = s.setCall call (.returned (.error ("serialize op: " ++ err)))) := by
  simp only [step] at stepped
  split at stepped
  next phase =>
    cases stepped
    exact ⟨phase, .inr ⟨_, rfl⟩⟩
  next phase =>
    simp only [findDuplicate, anonymous, ne_eq, not_true_eq_false, false_and, if_false] at stepped
    cases stepped
    exact ⟨phase, .inl ⟨rfl, rfl⟩⟩
  · cases stepped

/-- So it does not return a result at once. -/
theorem call_of_submit {op : Op} {encodeErr : Option String} {now : Int}
    (anonymous : op.clientId = 0)
    (stepped : s.step json (.submit call op encodeErr now) = some s') :
    s'.call call = .submitting ∨ ∃ err, s'.call call = .returned (.error err) := by
  obtain ⟨-, ⟨-, rfl⟩ | ⟨err, rfl⟩⟩ := submit_of_anonymous anonymous stepped
  · exact .inl (setCall_self _ _ _)
  · exact .inr ⟨_, setCall_self _ _ _⟩

/-- `ReplicateCommand` fails before it has made an entry, or times out. -/
theorem early_of_replicateFailed {err : Raft.ReplicateError}
    (stepped : s.step json (.replicateFailed call err) = some s') :
    s.call call = .submitting ∨ err = .timeout := by
  simp only [step] at stepped
  split at stepped
  next phase => exact .inl phase
  next phase => exact .inl phase
  · exact .inr rfl
  · cases stepped

/-- The ways the phase of a call can change in a step. -/
inductive Moves (a : HandlerAction) (call : Nat) : Phase → Phase → Prop where
  | stay {phase : Phase} : Moves a call phase phase
  | submit {op : Op} {encodeErr : Option String} {now : Int}
      (action : a = .submit call op encodeErr now) : Moves a call .idle .submitting
  | unserializable {op : Op} {encodeErr : Option String} {now : Int} {err : String}
      (action : a = .submit call op encodeErr now) :
      Moves a call .idle (.returned (.error ("serialize op: " ++ err)))
  | append {index : Nat} : Moves a call .submitting (.replicating index)
  | fail {phase : Phase} {err : Raft.ReplicateError}
      (early : phase = .submitting ∨ err = .timeout) :
      Moves a call phase (.returned (.error (replicateErr err)))
  | confirm {index : Nat} (action : a = .replicated call) :
      Moves a call (.replicating index) (.registering index)
  | refuse {index : Nat} {err : String} (full : err = errShutdown ∨ err = errTooManyPending) :
      Moves a call (.registering index) (.returned (.error err))
  | collect {index : Nat} {result : Result} :
      Moves a call (.registering index) (.returned (.ok result))
  | wait {index : Nat} : Moves a call (.registering index) (.waiting index)
  | receive {index : Nat} {result : Result} :
      Moves a call (.waiting index) (.returned (.ok result))
  | timeout {index : Nat} : Moves a call (.waiting index) (.timedOut index)
  | cleanup {index : Nat} : Moves a call (.timedOut index) (.returned (.error errTimeout))
  | shutdown {index : Nat} : Moves a call (.waiting index) (.returned (.error errShutdown))

theorem moves_of_step (anonymous : Anonymous a) (stepped : s.step json a = some s')
    (call : Nat) : Moves a call (s.call call) (s'.call call) := by
  -- a step moves one call at most
  have one : ∀ {other : Nat} {phase : Phase}, s'.call = (s.setCall other phase).call →
      Moves a other (s.call other) phase → Moves a call (s.call call) (s'.call call) := by
    intro other phase same moves
    rw [same]
    by_cases own : call = other
    · subst own
      rw [setCall_self]
      exact moves
    · rw [setCall_of_ne _ _ own]
      exact .stay
  have submitted : ∀ {other op encodeErr now}, a = .submit other op encodeErr now →
      Moves a call (s.call call) (s'.call call) := by
    rintro other op encodeErr now rfl
    obtain ⟨phase, ⟨-, same⟩ | ⟨err, same⟩⟩ := submit_of_anonymous anonymous stepped
    · exact one (congrArg Handlers.call same) (phase ▸ .submit rfl)
    · exact one (congrArg Handlers.call same) (phase ▸ .unserializable rfl)
  cases effect_of_step stepped with
  | answer => exact submitted rfl
  | submit => exact submitted rfl
  | append phase => exact one rfl (phase ▸ .append)
  | replicated phase => exact one rfl (phase ▸ .confirm rfl)
  | fail => exact one rfl (.fail (early_of_replicateFailed stepped))
  | refuse phase full => exact one rfl (phase ▸ .refuse (full.imp And.right And.right))
  | collect phase => exact one rfl (phase ▸ .collect)
  | wait phase => exact one rfl (phase ▸ .wait)
  | receive phase => exact one rfl (phase ▸ .receive)
  | timeout phase => exact one rfl (phase ▸ .timeout)
  | cleanup phase => exact one rfl (phase ▸ .cleanup)
  | shutdown phase => exact one rfl (phase ▸ .shutdown)
  | kill =>
      unfold kill
      split <;> exact .stay
  | _ => exact .stay

/-- A call is confirmed by `ReplicateCommand` only. -/
theorem Moves.confirmed {before after : Phase} (moves : Moves a call before after)
    (confirmed : after.Confirmed) : before.Confirmed ∨ a = .replicated call := by
  cases moves with
  | stay => exact .inl confirmed
  | confirm action => exact .inr action
  | submit => exact confirmed.elim
  | append => exact confirmed.elim
  | collect => exact .inl trivial
  | wait => exact .inl trivial
  | receive => exact .inl trivial
  | timeout => exact .inl trivial
  | _ => cases confirmed

/-- A call that has no entry after a step had none before. -/
theorem Moves.unentered {before after : Phase} (moves : Moves a call before after)
    (unentered : after.Unentered) : before.Unentered := by
  cases moves with
  | stay => exact unentered
  | submit => exact .inl rfl
  | _ => rcases unentered with phase | phase <;> cases phase

/-- No error of a call reads like the answer that a key is missing. -/
theorem Moves.misleading {before after : Phase} (moves : Moves a call before after)
    (misleading : after.Misleading) : before.Misleading := by
  have other : ∀ {err : String}, err ≠ errKeyNotFound →
      ¬ (Phase.returned (.error err)).Misleading := by
    intro err clear isMisleading
    exact clear (Except.error.inj (Phase.returned.inj isMisleading))
  cases moves with
  | stay => exact misleading
  | unserializable => exact absurd misleading (other (serializeErr_ne _))
  | fail => exact absurd misleading (other (replicateErr_ne _))
  | refuse full => rcases full with rfl | rfl <;> exact absurd misleading (other (by decide))
  | cleanup => exact absurd misleading (other (by decide))
  | shutdown => exact absurd misleading (other (by decide))
  | _ => cases misleading

/-- The server proper changes when a message is applied, and a dead server stays
dead. -/
theorem server_of_step (anonymous : Anonymous a) (other : ∀ msg now, a ≠ .apply msg now)
    (stepped : s.step json a = some s') :
    s'.server = s.server ∧ (s'.dead = false → s.dead = false) := by
  have submitted : ∀ {call op encodeErr now}, a = .submit call op encodeErr now →
      s'.server = s.server ∧ (s'.dead = false → s.dead = false) := by
    rintro call op encodeErr now rfl
    obtain ⟨-, ⟨-, rfl⟩ | ⟨err, rfl⟩⟩ := submit_of_anonymous anonymous stepped <;>
      exact ⟨rfl, id⟩
  cases effect_of_step stepped with
  | answer => exact submitted rfl
  | submit => exact submitted rfl
  | restore => exact absurd rfl (other _ _)
  | apply => exact absurd rfl (other _ _)
  | kill =>
      unfold kill
      split
      · exact ⟨rfl, id⟩
      · exact ⟨rfl, nofun⟩
  | _ => exact ⟨rfl, id⟩

/-- Applying a message is the work of the server proper. -/
theorem server_of_apply {msg : ApplyMsg} {now : Moment}
    (stepped : s.step json (.apply msg now) = some s') :
    s'.server = (s.server.processApplyMsg json now msg).server ∧ s'.dead = s.dead := by
  simp only [step] at stepped
  split at stepped
  · cases stepped
    unfold processApplyMsg
    simp only
    split <;> exact ⟨rfl, rfl⟩
  · cases stepped

/-- An index is given to a call when its entry is appended. -/
theorem entries_of_step (stepped : s.step json a = some s') {index : Nat}
    (given : (call, index) ∈ s'.entries) :
    (call, index) ∈ s.entries ∨ a = .append call index := by
  cases effect_of_step stepped with
  | append =>
      rcases List.mem_cons.mp given with new | old
      · cases new
        exact .inr rfl
      · exact .inl old
  | kill =>
      unfold kill at given
      split at given <;> exact .inl given
  | _ => exact .inl given

/-! ## The invariant -/

/-- The result is right for the index of the call, or tells of the shutdown. -/
def Owed (right : Nat → Result → Prop) (s : Handlers) (call : Nat) (result : Result) : Prop :=
  result = shutdownResult ∨ ∃ index, (call, index) ∈ s.entries ∧ right index result

/-- Every result on its way to a call is right, as long as the server is alive, and so is
what the calls in question have returned. -/
structure Answering (whose : Nat → Prop) (right : Nat → Result → Prop) (s : Handlers) : Prop
    where
  indexed : ∀ {call index}, (s.call call).At index → (call, index) ∈ s.entries
  waiters : ∀ {index call}, s.pendingOps.lookup index = some call → (call, index) ∈ s.entries
  closed : s.dead = true → s.pendingOps = ∅
  stashed : s.dead = false → ∀ {index result}, s.recent.lookup index = some result →
    right index result
  notifying : s.dead = false → ∀ {index result}, s.loop = .notifying index result →
    right index result
  sending : ∀ {call result}, s.loop = .sending call result → s.Owed right call result
  sent : ∀ {call result}, s.resultCh call = some result → s.Owed right call result
  returned : ∀ {call result}, whose call → s.call call = .returned (.ok result) →
    s.Owed right call result

theorem Owed.mono (owed : s.Owed right call result)
    (entries : ∀ entry ∈ s.entries, entry ∈ s'.entries)
    (weaker : ∀ index result, right index result → right' index result) :
    s'.Owed right' call result :=
  owed.imp_right fun ⟨index, given, isRight⟩ => ⟨index, entries _ given, weaker _ _ isRight⟩

namespace Answering

theorem initial (whose : Nat → Prop) (right : Nat → Result → Prop) (maxPending : Int) :
    Answering whose right (newServer maxPending) where
  indexed at' := by rcases at' with (phase | phase) | (phase | phase) <;> cases phase
  waiters found := by simp [newServer] at found
  closed dead := by cases dead
  stashed _ _ _ found := by simp [newServer] at found
  notifying _ _ _ loop := by cases loop
  sending loop := by cases loop
  sent sent := by cases sent
  returned _ phase := by cases phase

theorem mono (answering : Answering whose right s)
    (weaker : ∀ index result, right index result → right' index result) :
    Answering whose right' s where
  indexed := answering.indexed
  waiters := answering.waiters
  closed := answering.closed
  stashed alive _ _ found := weaker _ _ (answering.stashed alive found)
  notifying alive _ _ loop := weaker _ _ (answering.notifying alive loop)
  sending loop := (answering.sending loop).mono (fun _ => id) weaker
  sent sent := (answering.sent sent).mono (fun _ => id) weaker
  returned asked phase := (answering.returned asked phase).mono (fun _ => id) weaker

/-- The server proper plays no part. -/
theorem withServer (answering : Answering whose right s) (server : Server) :
    Answering whose right { s with server } :=
  { answering with
    sending := answering.sending
    sent := answering.sent
    returned := answering.returned }

/-- A call moves to a phase it may be in. -/
theorem setCall (answering : Answering whose right s) {phase : Phase}
    (indexed : ∀ {index}, phase.At index → (call, index) ∈ s.entries)
    (returned : ∀ {result}, whose call → phase = .returned (.ok result) →
      s.Owed right call result) :
    Answering whose right (s.setCall call phase) where
  indexed {other index} at' := by
    by_cases own : other = call
    · subst own
      rw [setCall_self] at at'
      exact indexed at'
    · rw [setCall_of_ne _ _ own] at at'
      exact answering.indexed at'
  waiters := answering.waiters
  closed := answering.closed
  stashed := answering.stashed
  notifying := answering.notifying
  sending := answering.sending
  sent := answering.sent
  returned {other result} asked phase' := by
    by_cases own : other = call
    · subst own
      rw [setCall_self] at phase'
      exact returned asked phase'
    · rw [setCall_of_ne _ _ own] at phase'
      exact answering.returned asked phase'

/-- A call gives up. -/
theorem fail (answering : Answering whose right s) (call : Nat) (err : String) :
    Answering whose right (s.setCall call (.returned (.error err))) := by
  apply answering.setCall
  · rintro index ((phase | phase) | (phase | phase)) <;> cases phase
  · intro result _ phase
    cases phase

/-- Waiters leave, results are taken out or dropped. -/
theorem shrink (answering : Answering whose right s) {pendingOps : Finmap fun _ : Nat => Nat}
    {recent : Finmap fun _ : Nat => Result} {resultCh : Nat → Option Result} {loop : Loop}
    (waiters : ∀ {index call}, pendingOps.lookup index = some call →
      s.pendingOps.lookup index = some call)
    (stashed : s.dead = false → ∀ {index result}, recent.lookup index = some result →
      right index result)
    (sent : ∀ {call result}, resultCh call = some result → s.Owed right call result)
    (notifying : s.dead = false → ∀ {index result}, loop = .notifying index result →
      right index result)
    (sending : ∀ {call result}, loop = .sending call result → s.Owed right call result) :
    Answering whose right { s with pendingOps, recent, resultCh, loop } where
  indexed := answering.indexed
  waiters found := answering.waiters (waiters found)
  closed dead := by
    apply Finmap.ext_lookup
    intro index
    cases found : pendingOps.lookup index with
    | none => simp
    | some call =>
        have old := waiters found
        rw [answering.closed dead, Finmap.lookup_empty] at old
        cases old
  stashed := stashed
  notifying := notifying
  sending := sending
  sent := sent
  returned := answering.returned

theorem append (answering : Answering whose right s) (call index : Nat) :
    Answering whose right
      { s.setCall call (.replicating index) with entries := (call, index) :: s.entries } := by
  have grown : ∀ entry ∈ s.entries, entry ∈ (call, index) :: s.entries :=
    fun _ => List.mem_cons_of_mem _
  refine
    { indexed := fun {other _} at' => ?_
      waiters := fun found => grown _ (answering.waiters found)
      closed := answering.closed
      stashed := answering.stashed
      notifying := answering.notifying
      sending := fun loop => (answering.sending loop).mono grown fun _ _ => id
      sent := fun sent => (answering.sent sent).mono grown fun _ _ => id
      returned := fun {other _} asked phase => ?_ }
  · by_cases own : other = call
    · subst own
      simp only [setCall_self] at at'
      rcases at' with (phase | phase) | (phase | phase) <;> cases phase
      exact List.mem_cons_self
    · simp only [setCall_of_ne _ _ own] at at'
      exact grown _ (answering.indexed at')
  · by_cases own : other = call
    · subst own
      simp only [setCall_self] at phase
      cases phase
    · simp only [setCall_of_ne _ _ own] at phase
      exact (answering.returned asked phase).mono grown fun _ _ => id

/-- A call of a living server registers. -/
theorem enroll (answering : Answering whose right s) (alive : s.dead = false) {index : Nat}
    (given : (call, index) ∈ s.entries) (passed : List Nat) :
    Answering whose right { s with pendingOps := s.pendingOps.insert index call, passed } :=
  { answering with
    waiters := fun {other _} found => by
      by_cases same : other = index
      · subst same
        simp only [Finmap.lookup_insert, Option.some.injEq] at found
        exact found ▸ given
      · simp only [Finmap.lookup_insert_of_ne _ same] at found
        exact answering.waiters found
    closed := fun dead => by
      have impossible : s.dead = true := dead
      rw [alive] at impossible
      cases impossible
    sending := answering.sending
    sent := answering.sent
    returned := answering.returned }

theorem collect (answering : Answering whose right s) (alive : s.dead = false) {index : Nat}
    (phase : s.call call = .registering index) (stashed : s.recent.lookup index = some result)
    (passed : List Nat) :
    Answering whose right ({ s with
      pendingOps := s.pendingOps.insert index call
      passed
      recent := s.recent.erase index }.setCall call (.returned (.ok result))) := by
  have given := answering.indexed (.inl (.inr phase))
  have enrolled := answering.enroll alive given passed
  have erased : s.dead = false → ∀ {other result},
      (s.recent.erase index).lookup other = some result → right other result :=
    fun alive _ _ found => answering.stashed alive (Finmap.lookup_of_lookup_erase found).2
  have taken := enrolled.shrink id erased enrolled.sent enrolled.notifying enrolled.sending
  apply taken.setCall
  · rintro index ((phase | phase) | (phase | phase)) <;> cases phase
  · rintro _ - ⟨⟩
    exact .inr ⟨index, given, answering.stashed alive stashed⟩

theorem wait (answering : Answering whose right s) (alive : s.dead = false) {index : Nat}
    (phase : s.call call = .registering index) (passed : List Nat) :
    Answering whose right
      ({ s with pendingOps := s.pendingOps.insert index call, passed }.setCall call
        (.waiting index)) := by
  have given := answering.indexed (.inl (.inr phase))
  apply (answering.enroll alive given passed).setCall
  · rintro other ((phase | phase) | (phase | phase)) <;> cases phase
    exact given
  · rintro _ - ⟨⟩

theorem receive (answering : Answering whose right s) (sent : s.resultCh call = some result) :
    Answering whose right
      { s.setCall call (.returned (.ok result)) with
        resultCh := Function.update s.resultCh call none } := by
  have moved : Answering whose right (s.setCall call (.returned (.ok result))) := by
    apply answering.setCall
    · rintro index ((phase | phase) | (phase | phase)) <;> cases phase
    · rintro _ - ⟨⟩
      exact answering.sent sent
  refine moved.shrink id moved.stashed (fun {other _} sent => ?_) moved.notifying moved.sending
  by_cases own : other = call
  · subst own
    simp at sent
  · rw [Function.update_of_ne own] at sent
    exact answering.sent sent

/-- The channel of a call holds what it held, or what is offered to it. -/
theorem offer_cases {resultCh : Nat → Option Result} {other : Nat} {found : Result}
    (sent : offer resultCh call result other = some found) :
    resultCh other = some found ∨ other = call ∧ found = result := by
  by_cases own : other = call
  · subst own
    simp only [offer, Function.update_self, Option.some.injEq] at sent
    cases held : resultCh other with
    | none => exact .inr ⟨rfl, by simpa [held] using sent.symm⟩
    | some old => exact .inl (by simpa [held] using sent)
  · rw [offer_of_ne result own] at sent
    exact .inl sent

theorem kill (answering : Answering whose right s) : Answering whose right s.kill := by
  unfold Handlers.kill
  split
  · exact answering
  next alive =>
    -- whatever a channel holds after the round was there or tells of the shutdown
    have round : ∀ (calls : List Nat) (resultCh : Nat → Option Result),
        (∀ {call result}, resultCh call = some result → s.Owed right call result) →
        ∀ {call result}, calls.foldl (fun resultCh call =>
          offer resultCh call { err := some errShutdown }) resultCh call = some result →
          s.Owed right call result := by
      intro calls
      induction calls with
      | nil => exact fun _ held => held
      | cons first rest ih =>
          intro resultCh held
          refine ih _ fun sent => ?_
          rcases offer_cases sent with old | ⟨-, rfl⟩
          · exact held old
          · exact .inl rfl
    exact
      { indexed := answering.indexed
        waiters := fun found => by simp at found
        closed := fun _ => rfl
        stashed := fun alive => by cases alive
        notifying := fun alive => by cases alive
        sending := answering.sending
        sent := round _ _ answering.sent
        returned := answering.returned }

/-- A message is applied with a right result, or by a server that is being killed. -/
theorem apply (answering : Answering whose right s) {msg : ApplyMsg} {now : Moment}
    (rightly : s.dead = false → ∀ index result,
      (s.server.processApplyMsg json now msg).notified = some (index, result) →
        right index result)
    (stepped : s.step json (.apply msg now) = some s') : Answering whose right s' := by
  have read : Answering whose right { s with
      server := (s.server.processApplyMsg json now msg).server
      recent := recentAfter json s.recent msg } := by
    have restored := (answering.withServer (s.server.processApplyMsg json now msg).server)
    refine restored.shrink id (fun alive {index result} found => ?_) restored.sent
      restored.notifying restored.sending
    unfold recentAfter at found
    split at found
    · split at found
      · exact answering.stashed alive found
      · simp at found
    · exact answering.stashed alive found
  have same : s' = s.processApplyMsg json now msg := by
    simp only [Handlers.step] at stepped
    split at stepped
    · cases stepped
      rfl
    · cases stepped
  rw [same, processApplyMsg]
  simp only
  split
  · exact read
  next index result notified =>
    exact
      { indexed := read.indexed
        waiters := read.waiters
        closed := read.closed
        stashed := read.stashed
        notifying := fun alive _ _ loop => by
          cases loop
          exact rightly alive index result notified
        sending := fun loop => by cases loop
        sent := read.sent
        returned := read.returned }

/-- The invariant is kept when messages are applied with right results. -/
theorem step (answering : Answering whose right s)
    (anonymous : ∀ call, whose call → AnonymousCall call a)
    (rightly : ∀ msg now, a = .apply msg now → s.dead = false → ∀ index result,
      (s.server.processApplyMsg json now msg).notified = some (index, result) →
        right index result)
    (stepped : s.step json a = some s') : Answering whose right s' := by
  cases effect_of_step stepped with
  | @answer call op encodeErr now server outcome phase =>
      apply (answering.withServer server).setCall
      · rintro index ((phase | phase) | (phase | phase)) <;> cases phase
      · -- an operation without ids is not answered from the cache
        intro result asked phase'
        rcases call_of_submit (anonymous call asked rfl) stepped with entered | ⟨err, failed⟩
        · rw [setCall_self, phase'] at entered
          cases entered
        · rw [setCall_self, phase'] at failed
          cases failed
  | @submit call op encodeErr now server phase =>
      apply (answering.withServer server).setCall
      · rintro index ((phase | phase) | (phase | phase)) <;> cases phase
      · rintro _ - ⟨⟩
  | restore => exact answering.apply (rightly _ _ rfl) stepped
  | apply => exact answering.apply (rightly _ _ rfl) stepped
  | append => exact answering.append _ _
  | replicated phase =>
      apply answering.setCall
      · rintro index ((phase' | phase') | (phase' | phase')) <;> cases phase'
        exact answering.indexed (.inl (.inl phase))
      · rintro _ - ⟨⟩
  | fail => exact answering.fail _ _
  | refuse => exact answering.fail _ _
  | collect phase alive _ stashed => exact answering.collect alive phase stashed _
  | wait phase alive => exact answering.wait alive phase _
  | receive phase sent => exact answering.receive sent
  | @timeout call index phase =>
      have moved : Answering whose right (s.setCall call (.timedOut index)) := by
        apply answering.setCall
        · rintro index ((phase' | phase') | (phase' | phase')) <;> cases phase'
          exact answering.indexed (.inr (.inl phase))
        · rintro _ - ⟨⟩
      exact
        { moved with
          sending := moved.sending
          sent := moved.sent
          returned := moved.returned }
  | @cleanup call _ _ =>
      have moved := answering.fail call errTimeout
      exact moved.shrink (fun found => (Finmap.lookup_of_lookup_erase found).2)
        moved.stashed moved.sent moved.notifying moved.sending
  | shutdown => exact answering.fail _ _
  | found loop waiter =>
      refine answering.shrink (fun found => (Finmap.lookup_of_lookup_erase found).2)
        answering.stashed answering.sent (fun _ _ _ loop => by cases loop) ?_
      rintro _ _ ⟨⟩
      -- a server with a waiter is alive
      have alive : s.dead = false := by
        by_contra dead
        rw [answering.closed (by simpa using dead), Finmap.lookup_empty] at waiter
        cases waiter
      exact .inr ⟨_, answering.waiters waiter, answering.notifying alive loop⟩
  | @stash index result _ _ loop _ bounded =>
      refine answering.shrink id (fun alive {other _} found => ?_) answering.sent
        (fun _ _ _ loop => by cases loop) (fun loop => by cases loop)
      rcases lookup_of_stash bounded found with ⟨rfl, rfl⟩ | held
      · exact answering.notifying alive loop
      · exact answering.stashed alive held
  | send loop =>
      refine answering.shrink id answering.stashed (fun sent => ?_)
        (fun _ _ _ loop => by cases loop) (fun loop => by cases loop)
      rcases offer_cases sent with old | ⟨rfl, rfl⟩
      · exact answering.sent old
      · exact answering.sending loop
  | kill => exact answering.kill

end Answering

/-! ## The theorem -/

/-- The results with which entries were applied stay on record. -/
theorem applied_mono (stepped : s.step json a = some s') :
    ∀ pair ∈ s.applied, pair ∈ s'.applied := by
  cases effect_of_step stepped with
  | apply => exact fun _ => List.mem_cons_of_mem _
  | kill =>
      unfold kill
      split <;> exact fun _ => id
  | _ => exact fun _ => id

/-- What `notifyWaiter` is called with is on record. -/
theorem mem_applied_of_apply {msg : ApplyMsg} {now : Moment} {index : Nat}
    (notified : (s.server.processApplyMsg json now msg).notified = some (index, result))
    (stepped : s.step json (.apply msg now) = some s') : (index, result) ∈ s'.applied := by
  simp only [step] at stepped
  split at stepped
  · cases stepped
    simp [processApplyMsg, notified]
  · cases stepped

/-- In every interleaving of calls, apply loop, timers, evictions and `Kill`, a call
for an operation without ids that comes back with a result has an index, and the
server has applied the entry at that index with that very result; the one exception
is the result that tells of the shutdown. -/
theorem returned_result_applied {maxPending : Int}
    (run : Run (step json) (fun _ a => AnonymousCall call a) (newServer maxPending) s)
    (returned : s.call call = .returned (.ok result)) :
    result = shutdownResult ∨
      ∃ index, (call, index) ∈ s.entries ∧ (index, result) ∈ s.applied := by
  have answering : Answering (· = call) (fun index result => (index, result) ∈ s.applied) s := by
    refine @Run.invariant _ _ _ _ _ _
      (fun s => Answering (· = call) (fun index result => (index, result) ∈ s.applied) s) run
      (.initial _ _ _) fun {t u a} answering anonymous stepped => ?_
    refine (answering.mono fun _ _ => applied_mono stepped _).step
      (fun _ own => own ▸ anonymous) ?_ stepped
    rintro msg now rfl - index result notified
    exact mem_applied_of_apply notified stepped
  exact answering.returned rfl returned

/-- What a client with ids submits. -/
def numberedOp : Op := ⟨.put, "x", "b", 7, 1⟩

/-- The JSON library on two commands: `[7]` has ids, every other one has none. -/
def numberedJson : Json :=
  .ofCommands fun data =>
    .ok (if data = [7] then ⟨2, "x", "b", 7, 1⟩ else ⟨2, "x", "a", 0, 0⟩)

/-- A client with ids is answered from the cache beside it: call `0` has no ids and waits
at index `1`, call `1` finds what was filed for its ids when the entry at index `2` was
applied, and call `0` receives. -/
def besideCached : List HandlerAction :=
  [.submit 0 putOp none 0, .append 0 1, .replicated 0, .register 0,
    .apply (.command [] 1) 0, .notify [], .send, .apply (.command [7] 2) 0, .notify [],
    .submit 1 numberedOp none 0, .receive 0]

/-- A call that has waited beside another one has the result of its own entry. -/
theorem returned_result_applied_waiting :
    ∃ s, Run (step numberedJson) (fun _ a => AnonymousCall 0 a) (newServer 2) s ∧
      s.call 0 = .returned (.ok {}) ∧ s.call 1 = .returned (.ok {}) ∧ s.entries = [(0, 1)] ∧
      (({} : Result) = shutdownResult ∨
        ∃ index, (0, index) ∈ s.entries ∧ (index, {}) ∈ s.applied) := by
  have reached : ∃ s, Run (step numberedJson) (fun _ a => AnonymousCall 0 a) (newServer 2) s ∧
      s.call 0 = .returned (.ok {}) ∧ s.call 1 = .returned (.ok {}) ∧ s.entries = [(0, 1)] :=
    exists_run_of_perform besideCached _ (by decide +kernel)
  obtain ⟨s, run, returned, cached, entries⟩ := reached
  exact ⟨s, run, returned, cached, entries, returned_result_applied run returned⟩

end Handlers

end DistribKV.KV
