import DistribKV.KV.Clerk
import DistribKV.Consensus.Loops

/-!
# The clerk's retries

The loops of `Clerk.Get` and `Clerk.Do` of `kv/clerk.go`.  Both try one server after the
other until one of them answers, and panic after `maxClerkAttempts` attempts.  They differ
in what ends them and in what an attempt changes: `Do` takes a new sequence number for
every request it sends, `Get` takes none, and the sequence number is what the clerk goes
through its servers by.
-/

namespace DistribKV.KV

open Consensus

/-- How an attempt ends: without a connection, without a reply, or with one. -/
inductive Attempt (ρ : Type) where
  | dialFailed
  | callFailed
  | replied (resp : ρ)
  deriving DecidableEq, Repr

namespace Attempt

variable {ρ υ : Type}

def map (f : ρ → υ) : Attempt ρ → Attempt υ
  | .dialFailed => .dialFailed
  | .callFailed => .callFailed
  | .replied resp => .replied (f resp)

end Attempt

namespace Clerk

/-- One round of `Get`: another one, or the value it returns.  `none` is an index out of
range in `serverIds`. -/
def getAttempt (ck : Clerk) : Attempt GetResponse → Option (Clerk ⊕ Clerk × String)
  | .dialFailed | .callFailed => some (.inl ck)
  | .replied resp =>
      if resp.wrongLeader then some (.inl (ck.updateLeader resp.leaderId))
      else (ck.serverIds[ck.pickServer]?).map fun id =>
        .inr ({ ck with leaderId := id }, resp.value)

/-- One round of `Do`. -/
def doAttempt (ck : Clerk) : Attempt WriteResponse → Option (Clerk ⊕ Clerk)
  | .dialFailed => some (.inl ck)
  | .callFailed => some (.inl ck.newSequenceNum.1)
  | .replied resp =>
      if resp.wrongLeader then some (.inl (ck.newSequenceNum.1.updateLeader resp.leaderId))
      else if resp.success = false then some (.inl ck.newSequenceNum.1)
      else (ck.serverIds[ck.pickServer]?).map fun id =>
        .inr { ck.newSequenceNum.1 with leaderId := id }

/-- A round of the loop around the attempts of a call, which come out as `outcomes` says. -/
def round {ρ α : Type} (attempt : Clerk → Attempt ρ → Option (Clerk ⊕ α))
    (outcomes : Nat → Attempt ρ) (s : Clerk × Nat) : Option (Clerk × Nat ⊕ α) :=
  (attempt s.1 (outcomes s.2)).map (Sum.map (·, s.2 + 1) id)

/-- The loop.  A result comes with the number of attempts; `none` is a panic. -/
def retrying {ρ α : Type} (attempt : Clerk → Attempt ρ → Option (Clerk ⊕ α)) (ck : Clerk)
    (outcomes : Nat → Attempt ρ) : Option (Nat × α) :=
  loop (round attempt outcomes) maxClerkAttempts (ck, 0)

/-- A clerk with servers and as many ids. -/
structure Parallel (ck : Clerk) : Prop where
  served : ck.servers ≠ []
  parallel : ck.serverIds.length = ck.servers.length

namespace Parallel

variable {ck : Clerk}

theorem pickServer_lt (parallel : ck.Parallel) : ck.pickServer < ck.servers.length := by
  have roundRobin : ck.seqNum % ck.servers.length < ck.servers.length :=
    Nat.mod_lt _ (List.length_pos_iff.mpr parallel.served)
  unfold pickServer
  simp only
  split
  · split
    next i found =>
      obtain ⟨inIds, -, -⟩ := List.findIdx?_eq_some_iff_getElem.mp found
      exact parallel.parallel ▸ inIds
    next => exact roundRobin
  · exact roundRobin

theorem exists_id (parallel : ck.Parallel) : ∃ id, ck.serverIds[ck.pickServer]? = some id :=
  ⟨_, List.getElem?_eq_getElem (parallel.parallel ▸ parallel.pickServer_lt)⟩

end Parallel

end Clerk

/-! ## What `Get` reports -/

/-- What a server made a response of: its raft node when the request arrived and when it
answered, and what `submitOperation` returned. -/
structure Handled where
  r : Raft
  r' : Raft
  outcome : Except String Result

/-- The response of `Server.Get`. -/
def Handled.respond (key : String) (h : Handled) : GetResponse :=
  get h.r h.r' (fun _ => h.outcome) ⟨key⟩

/-- What an attempt brings for the client. -/
inductive Answer where
  | unreachable
  | wrongLeader
  | success (value : String)
  | keyNotFound
  | failed (err : String)
  deriving DecidableEq, Repr

/-- What a server has to say. -/
def Handled.answer (h : Handled) : Answer :=
  if h.r.isLeader then
    match h.outcome with
    | .error err => if err = errNotLeader then .wrongLeader else .failed err
    | .ok result =>
        match result.err with
        | none => .success result.value
        | some err => if err = errKeyNotFound then .keyNotFound else .failed err
  else .wrongLeader

def Attempt.answer : Attempt Handled → Answer
  | .dialFailed | .callFailed => .unreachable
  | .replied h => h.answer

namespace Answer

/-- An answer that does not end the loop. -/
def Retried (a : Answer) : Prop :=
  a = .unreachable ∨ a = .wrongLeader

instance (a : Answer) : Decidable a.Retried := inferInstanceAs (Decidable (_ ∨ _))

/-- An answer about the key that reads as `v`. -/
def Tells (v : String) (a : Answer) : Prop :=
  a = .success v ∨ a = .keyNotFound ∧ v = ""

instance (v : String) (a : Answer) : Decidable (a.Tells v) := inferInstanceAs (Decidable (_ ∨ _))

/-- The value of a response: only a success carries one. -/
def text : Answer → String
  | .success value => value
  | _ => ""

theorem tells_text_iff {a : Answer} (ends : ¬ a.Retried) :
    a.Tells a.text ↔ ∀ err, a ≠ .failed err := by
  cases a with
  | unreachable => exact absurd (.inl rfl) ends
  | wrongLeader => exact absurd (.inr rfl) ends
  | success value => simp [Tells, text]
  | keyNotFound => simp [Tells, text]
  | failed err => simp [Tells]

end Answer

theorem Handled.answer_ne_unreachable (h : Handled) : h.answer ≠ .unreachable := by
  unfold answer
  split
  · split
    · split <;> nofun
    · split
      · nofun
      · split <;> nofun
  · nofun

/-- A response is a redirection or carries the value of the answer. -/
theorem Handled.respond_eq (key : String) (h : Handled) :
    (h.respond key).wrongLeader = decide (h.answer = .wrongLeader) ∧
      (h.answer ≠ .wrongLeader → (h.respond key).value = h.answer.text) := by
  obtain ⟨r, r', outcome⟩ := h
  unfold respond answer get
  cases leads : r.isLeader with
  | false => exact ⟨rfl, fun other => absurd rfl other⟩
  | true =>
      cases outcome with
      | error err =>
          by_cases notLeader : err = errNotLeader
          · simp [getResponse, errorGet, wrongLeaderGet, notLeader]
          · simp [getResponse, errorGet, notLeader, Answer.text]
      | ok result =>
          cases missing : result.err with
          | none => simp [getResponse, missing, Answer.text]
          | some err =>
              by_cases notFound : err = errKeyNotFound <;>
                simp [getResponse, missing, notFound, Answer.text]

namespace Clerk

/-- A round of `Get` against servers that handle its requests. -/
def getRound (key : String) (outcomes : Nat → Attempt Handled) :
    Clerk × Nat → Option (Clerk × Nat ⊕ Clerk × String) :=
  round getAttempt fun n => (outcomes n).map (Handled.respond key)

/-- `Clerk.Get`. -/
def get (ck : Clerk) (key : String) (outcomes : Nat → Attempt Handled) :
    Option (Nat × Clerk × String) :=
  ck.retrying getAttempt fun n => (outcomes n).map (Handled.respond key)

variable {ck : Clerk} {outcomes : Nat → Attempt Handled} {n : Nat}

theorem updateLeader_parallel (parallel : ck.Parallel) (leaderId : Int) :
    (ck.updateLeader leaderId).Parallel :=
  ⟨parallel.served, parallel.parallel⟩

theorem getRound_of_retried (parallel : ck.Parallel) (key : String)
    (retried : (outcomes n).answer.Retried) :
    ∃ next, getRound key outcomes (ck, n) = some (.inl (next, n + 1)) ∧ next.Parallel := by
  unfold getRound round
  simp only
  cases came : outcomes n with
  | dialFailed => exact ⟨ck, rfl, parallel⟩
  | callFailed => exact ⟨ck, rfl, parallel⟩
  | replied h =>
      rw [came] at retried
      have wrong : h.answer = .wrongLeader := retried.resolve_left h.answer_ne_unreachable
      have redirects := (h.respond_eq key).1
      rw [decide_eq_true wrong] at redirects
      refine ⟨ck.updateLeader (h.respond key).leaderId, ?_, updateLeader_parallel parallel _⟩
      rw [Attempt.map, getAttempt, if_pos redirects]
      rfl

theorem getRound_of_not_retried (parallel : ck.Parallel) (key : String)
    (ends : ¬ (outcomes n).answer.Retried) :
    ∃ last, getRound key outcomes (ck, n) = some (.inr (last, (outcomes n).answer.text)) := by
  unfold getRound round
  simp only
  cases came : outcomes n with
  | dialFailed => exact absurd (.inl (congrArg Attempt.answer came)) ends
  | callFailed => exact absurd (.inl (congrArg Attempt.answer came)) ends
  | replied h =>
      rw [came] at ends
      have other : h.answer ≠ .wrongLeader := fun wrong => ends (.inr wrong)
      obtain ⟨redirects, carries⟩ := h.respond_eq key
      rw [decide_eq_false other] at redirects
      obtain ⟨id, found⟩ := parallel.exists_id
      refine ⟨{ ck with leaderId := id }, ?_⟩
      rw [Attempt.map, getAttempt, if_neg (by simp [redirects]), found, carries other]
      rfl

/-- `Get` returns what the first attempt brings that ends the loop. -/
theorem get_eq_some (parallel : ck.Parallel) {key : String} {attempts : Nat} {last : Clerk}
    {v : String} (returned : ck.get key outcomes = some (attempts, last, v)) :
    ∃ n < maxClerkAttempts, attempts = n + 1 ∧ (∀ m < n, (outcomes m).answer.Retried) ∧
      ¬ (outcomes n).answer.Retried ∧ v = (outcomes n).answer.text := by
  obtain ⟨n, ⟨ck', k⟩, rfl, within, ⟨count, parallel, retried⟩, done⟩ :=
    exists_last_of_loop (getRound key outcomes) (n := 0)
      (fun n s => s.2 = n ∧ s.1.Parallel ∧ ∀ m < n, (outcomes m).answer.Retried)
      (by
        rintro _ ⟨ck, n⟩ next ⟨rfl, parallel, retried⟩ again
        by_cases here : (outcomes n).answer.Retried
        · obtain ⟨ck', rounded, parallel'⟩ := getRound_of_retried parallel key here
          rw [rounded] at again
          cases again
          exact ⟨rfl, parallel', Nat.forall_lt_succ_right.mpr ⟨retried, here⟩⟩
        · obtain ⟨ck', rounded⟩ := getRound_of_not_retried parallel key here
          rw [rounded] at again
          cases again)
      ⟨rfl, parallel, fun m lt => absurd lt (Nat.not_lt_zero m)⟩ returned
  rw [Nat.zero_add] at count retried
  subst count
  by_cases here : (outcomes k).answer.Retried
  · obtain ⟨next, rounded, -⟩ := getRound_of_retried parallel key here
    rw [rounded] at done
    cases done
  · obtain ⟨next, rounded⟩ := getRound_of_not_retried parallel key here
    rw [rounded] at done
    cases done
    exact ⟨k, within, rfl, retried, here, rfl⟩

/-- `Get` returns when an attempt ends the loop before the limit. -/
theorem get_of_not_retried (parallel : ck.Parallel) (key : String)
    (within : n < maxClerkAttempts) (ends : ¬ (outcomes n).answer.Retried) :
    ∃ attempts last v, ck.get key outcomes = some (attempts, last, v) := by
  obtain ⟨attempts, ⟨last, v⟩, returned, -, -⟩ := exists_loop_of_measure
    (getRound key outcomes) (fun s => s.1.Parallel ∧ s.2 ≤ n) (fun s => n - s.2)
    (fun _ => True)
    (by
      rintro ⟨ck, k⟩ ⟨parallel, le⟩
      by_cases here : (outcomes k).answer.Retried
      · obtain ⟨ck', again, parallel'⟩ := getRound_of_retried parallel key here
        have before : k < n := by
          refine lt_of_le_of_ne le fun same => ends ?_
          exact same ▸ here
        exact .inl ⟨(ck', k + 1), again, ⟨parallel', before⟩, Nat.sub_succ_lt_self n k before⟩
      · obtain ⟨ck', done⟩ := getRound_of_not_retried parallel key here
        exact .inr ⟨_, done, trivial⟩)
    maxClerkAttempts (s := (ck, 0)) ⟨parallel, Nat.zero_le n⟩ within
  exact ⟨attempts, last, v, returned⟩

/-- `Get` reports only real answers if and only if the loop is not ended by another error:
for every clerk and whatever its attempts come to, a value that is returned is what the
last attempt said about the key exactly when the first answer that is not a redirection
is no error but a missing key. -/
theorem get_reports_answer_iff (parallel : ck.Parallel) (key : String)
    (outcomes : Nat → Attempt Handled) :
    (∀ attempts last v, ck.get key outcomes = some (attempts, last, v) →
        (outcomes (attempts - 1)).answer.Tells v) ↔
      ∀ n < maxClerkAttempts, (∀ m < n, (outcomes m).answer.Retried) →
        ∀ err, (outcomes n).answer ≠ .failed err := by
  constructor
  · intro reports n within retried err failed
    have ends : ¬ (outcomes n).answer.Retried := by
      rw [failed]
      rintro (wrong | wrong) <;> cases wrong
    obtain ⟨attempts, last, v, returned⟩ := get_of_not_retried parallel key within ends
    obtain ⟨k, -, rfl, before, ends', rfl⟩ := get_eq_some parallel returned
    have told := reports _ _ _ returned
    obtain same : k = n := by
      rcases Nat.lt_trichotomy k n with lt | same | lt
      · exact absurd (retried k lt) ends'
      · exact same
      · exact absurd (before n lt) ends
    rw [Nat.add_sub_cancel, same] at told
    exact (Answer.tells_text_iff ends).mp told err failed
  · intro noError attempts last v returned
    obtain ⟨n, within, rfl, retried, ends, rfl⟩ := get_eq_some parallel returned
    rw [Nat.add_sub_cancel]
    exact (Answer.tells_text_iff ends).mpr (noError n within retried)

/-- A clerk of two servers that knows no leader. -/
def fresh : Clerk where
  servers := ["a:1", "b:2"]
  serverIds := [1, 2]
  clientId := 7

/-- A leader of term `1`. -/
def leading : Raft where
  serverId := 1
  peers := [⟨2, 1, 0⟩]
  currentTerm := 1
  state := .leader
  leaderId := 1

/-- The first server cannot be reached, then it answers. -/
theorem get_reports_answer_after_failure :
    (fresh.get "k" fun n =>
        if n = 0 then .callFailed else .replied ⟨leading, leading, .ok ⟨"v", none⟩⟩).isSome ∧
      ∀ attempts last v, (fresh.get "k" fun n =>
          if n = 0 then .callFailed else .replied ⟨leading, leading, .ok ⟨"v", none⟩⟩) =
            some (attempts, last, v) →
        (if attempts - 1 = 0 then .callFailed else
          Attempt.replied ⟨leading, leading, .ok ⟨"v", none⟩⟩).answer.Tells v := by
  refine ⟨by decide, (get_reports_answer_iff ⟨by decide, rfl⟩ "k" _).mpr ?_⟩
  intro n _ _ err failed
  by_cases first : n = 0
  · rw [if_pos first] at failed
    cases failed
  · rw [if_neg first] at failed
    cases failed

/-- A commit timeout reads as an empty value. -/
theorem get_reports_timeout :
    (fresh.get "k" fun _ => .replied ⟨leading, leading, .error errTimeout⟩).map
        (fun (attempts, _, v) => (attempts, v)) = some (1, "") ∧
      (Attempt.replied ⟨leading, leading, .error errTimeout⟩).answer = .failed errTimeout ∧
      ¬ (Attempt.replied ⟨leading, leading, .error errTimeout⟩).answer.Tells "" := by
  decide

end Clerk

/-! ## Which servers are contacted -/

/-- An attempt without a reply, or with a redirection to an unknown leader. -/
def Attempt.Fails {ρ : Type} (leaderUnknown : ρ → Prop) : Attempt ρ → Prop
  | .dialFailed => False
  | .callFailed => True
  | .replied resp => leaderUnknown resp

def GetResponse.LeaderUnknown (resp : GetResponse) : Prop :=
  resp.wrongLeader = true ∧ resp.leaderId < 0

def WriteResponse.LeaderUnknown (resp : WriteResponse) : Prop :=
  resp.wrongLeader = true ∧ resp.leaderId < 0

namespace Clerk

section Windows

variable {ρ α : Type}

/-- The servers that attempts contact one after the other, as long as the call goes on. -/
def contacted (attempt : Clerk → Attempt ρ → Option (Clerk ⊕ α)) :
    Clerk → List (Attempt ρ) → List Nat
  | _, [] => []
  | ck, a :: window =>
      ck.pickServer ::
        match attempt ck a with
        | some (.inl next) => contacted attempt next window
        | _ => []

/-- Any `bound` attempts that fail one after the other contact every server. -/
def Reaches (attempt : Clerk → Attempt ρ → Option (Clerk ⊕ α)) (leaderUnknown : ρ → Prop)
    (ck : Clerk) (bound : Nat) : Prop :=
  ∀ window : List (Attempt ρ), window.length = bound → (∀ a ∈ window, a.Fails leaderUnknown) →
    ∀ i < ck.servers.length, i ∈ contacted attempt ck window

variable {attempt : Clerk → Attempt ρ → Option (Clerk ⊕ α)} {leaderUnknown : ρ → Prop}
  {ck : Clerk}

/-- The clerk stays with the server it picks when calls fail. -/
def Stays (attempt : Clerk → Attempt ρ → Option (Clerk ⊕ α)) (ck : Clerk) : Prop :=
  ∃ inv : Clerk → Prop, inv ck ∧ ∀ c, inv c → c.pickServer = ck.pickServer ∧
    ∃ next, attempt c .callFailed = some (.inl next) ∧ inv next

theorem contacted_of_stays (stays : Stays attempt ck) (bound : Nat) :
    contacted attempt ck (List.replicate bound .callFailed) =
      List.replicate bound ck.pickServer := by
  obtain ⟨inv, holds, step⟩ := stays
  have stuck : ∀ c, inv c → contacted attempt c (List.replicate bound .callFailed) =
      List.replicate bound ck.pickServer := by
    induction bound with
    | zero => exact fun _ _ => rfl
    | succ bound ih =>
        intro c holds
        obtain ⟨picks, next, again, holds'⟩ := step c holds
        simp only [List.replicate_succ, contacted, picks, again, ih next holds']
  exact stuck ck holds

/-- Such a clerk reaches every server only if there is one. -/
theorem eq_one_of_stays (parallel : ck.Parallel) (stays : Stays attempt ck) {bound : Nat}
    (reaches : Reaches attempt leaderUnknown ck bound) : ck.servers.length = 1 := by
  have only : ∀ i < ck.servers.length, i = ck.pickServer := by
    intro i inRange
    have reached := reaches (List.replicate bound .callFailed) List.length_replicate
      (fun a mem => by rw [List.eq_of_mem_replicate mem]; trivial) i inRange
    rw [contacted_of_stays stays] at reached
    exact List.eq_of_mem_replicate reached
  have positive := List.length_pos_iff.mpr parallel.served
  by_contra many
  have first := only 0 positive
  have second := only 1 (by omega)
  omega

theorem reaches_of_eq_one (parallel : ck.Parallel) (single : ck.servers.length = 1) :
    Reaches attempt leaderUnknown ck 1 := by
  intro window length _ i inRange
  obtain ⟨a, rfl⟩ := List.length_eq_one_iff.mp length
  have picked := parallel.pickServer_lt
  have here : i = ck.pickServer := by omega
  rw [here]
  exact List.mem_cons_self

end Windows

/-- The leader that the clerk knows is one of its servers. -/
def Cached (ck : Clerk) : Prop :=
  0 ≤ ck.leaderId ∧ ck.leaderId ∈ ck.serverIds

instance (ck : Clerk) : Decidable ck.Cached := inferInstanceAs (Decidable (_ ∧ _))

variable {ck : Clerk}

theorem pickServer_of_not_cached (unknown : ¬ ck.Cached) :
    ck.pickServer = ck.seqNum % ck.servers.length := by
  unfold pickServer
  simp only
  split
  next known =>
    have missing : ck.serverIds.findIdx? (· = ck.leaderId) = none := by
      rw [List.findIdx?_eq_none_iff]
      intro id mem
      exact decide_eq_false fun same => unknown ⟨known, same ▸ mem⟩
    rw [missing]
  next => rfl

theorem pickServer_of_found (ck : Clerk) (known : 0 ≤ ck.leaderId) {i : Nat}
    (found : ck.serverIds.findIdx? (· = ck.leaderId) = some i) : ck.pickServer = i := by
  unfold pickServer
  simp only
  rw [if_pos known, found]

theorem pickServer_newSequenceNum (cached : ck.Cached) :
    ck.newSequenceNum.1.pickServer = ck.pickServer := by
  obtain ⟨known, mem⟩ := cached
  have found : (ck.serverIds.findIdx? (· = ck.leaderId)).isSome := by
    rw [List.findIdx?_isSome]
    exact List.any_eq_true.mpr ⟨_, mem, decide_eq_true rfl⟩
  obtain ⟨i, found⟩ := Option.isSome_iff_exists.mp found
  rw [ck.pickServer_of_found known found]
  exact ck.newSequenceNum.1.pickServer_of_found known found

/-- `Get` changes nothing when a call fails. -/
theorem stays_getAttempt (ck : Clerk) : Stays getAttempt ck := by
  refine ⟨(· = ck), rfl, ?_⟩
  rintro _ rfl
  exact ⟨rfl, _, rfl, rfl⟩

/-- `Do` changes the sequence number, which does not count as long as a leader is known. -/
theorem stays_doAttempt (cached : ck.Cached) : Stays doAttempt ck := by
  refine ⟨fun c => c.Cached ∧ c.pickServer = ck.pickServer, ⟨cached, rfl⟩, ?_⟩
  rintro c ⟨cached, same⟩
  exact ⟨same, _, rfl, cached, (pickServer_newSequenceNum cached).trans same⟩

/-- A failing attempt of `Do` moves on to the next sequence number and leaves a clerk that
knows no leader without one. -/
theorem doAttempt_of_fails (unknown : ¬ ck.Cached) {a : Attempt WriteResponse}
    (fails : a.Fails WriteResponse.LeaderUnknown) :
    ∃ next, ck.doAttempt a = some (.inl next) ∧ ¬ next.Cached ∧
      next.seqNum = ck.seqNum + 1 ∧ next.servers = ck.servers := by
  cases a with
  | dialFailed => cases fails
  | callFailed => exact ⟨_, rfl, unknown, rfl, rfl⟩
  | replied resp =>
      obtain ⟨wrong, noLeader⟩ := fails
      refine ⟨ck.newSequenceNum.1.updateLeader resp.leaderId, ?_, ?_, rfl, rfl⟩
      · rw [doAttempt, if_pos wrong]
      · rintro ⟨known, -⟩
        rw [updateLeader, if_neg (by omega)] at known
        exact absurd (show (0 : Int) ≤ -1 from known) (by decide)

/-- Without a leader, `Do` goes round. -/
theorem contacted_doAttempt (unknown : ¬ ck.Cached) {window : List (Attempt WriteResponse)}
    (fails : ∀ a ∈ window, a.Fails WriteResponse.LeaderUnknown) :
    contacted doAttempt ck window =
      (List.range window.length).map fun j => (ck.seqNum + j) % ck.servers.length := by
  induction window generalizing ck with
  | nil => rfl
  | cons a window ih =>
      obtain ⟨next, again, unknown', seqNum, servers⟩ :=
        doAttempt_of_fails unknown (fails a List.mem_cons_self)
      have rest := ih unknown' fun a mem => fails a (List.mem_cons_of_mem _ mem)
      rw [seqNum, servers] at rest
      simp only [contacted, again, rest, pickServer_of_not_cached unknown, List.length_cons,
        List.range_succ_eq_map, List.map_cons, List.map_map, Nat.add_zero]
      congr 1
      apply List.map_congr_left
      intro j _
      simp only [Function.comp_apply, Nat.succ_eq_add_one]
      congr 1
      omega

/-- Counting goes through every remainder. -/
theorem exists_add_mod_eq (start : Nat) {i count : Nat} (lt : i < count) :
    ∃ j < count, (start + j) % count = i := by
  have below : start % count < count := Nat.mod_lt _ (by omega)
  refine ⟨(i + (count - start % count)) % count, Nat.mod_lt _ (by omega), ?_⟩
  calc (start + (i + (count - start % count)) % count) % count
      = (start % count + (i + (count - start % count))) % count := by
        rw [Nat.add_mod_mod, Nat.mod_add_mod]
    _ = (i + count) % count := by
        congr 1
        omega
    _ = i := by rw [Nat.add_mod_right, Nat.mod_eq_of_lt lt]

theorem reaches_of_not_cached (unknown : ¬ ck.Cached) :
    Reaches doAttempt WriteResponse.LeaderUnknown ck ck.servers.length := by
  intro window length fails i inRange
  obtain ⟨j, within, counted⟩ := exists_add_mod_eq ck.seqNum inRange
  rw [contacted_doAttempt unknown fails, length]
  exact List.mem_map.mpr ⟨j, List.mem_range.mpr within, counted⟩

/-- The retries reach every server exactly in these cases, whatever bound is set: with one
server, and for `Do` also when the clerk does not know one of its servers as the leader.
Then as many failing attempts as there are servers are enough. -/
theorem reaches_every_server_iff (parallel : ck.Parallel) :
    ((Reaches getAttempt GetResponse.LeaderUnknown ck ck.servers.length ↔
          ck.servers.length = 1) ∧
        ((∃ bound, Reaches getAttempt GetResponse.LeaderUnknown ck bound) ↔
          ck.servers.length = 1)) ∧
      (Reaches doAttempt WriteResponse.LeaderUnknown ck ck.servers.length ↔
          ck.servers.length = 1 ∨ ¬ ck.Cached) ∧
        ((∃ bound, Reaches doAttempt WriteResponse.LeaderUnknown ck bound) ↔
          ck.servers.length = 1 ∨ ¬ ck.Cached) := by
  have getStuck : ∀ {bound}, Reaches getAttempt GetResponse.LeaderUnknown ck bound →
      ck.servers.length = 1 :=
    eq_one_of_stays parallel (stays_getAttempt ck)
  have getReaches : ck.servers.length = 1 →
      Reaches getAttempt GetResponse.LeaderUnknown ck ck.servers.length := by
    intro single
    rw [single]
    exact reaches_of_eq_one parallel single
  have doStuck : ∀ {bound}, Reaches doAttempt WriteResponse.LeaderUnknown ck bound →
      ck.servers.length = 1 ∨ ¬ ck.Cached := by
    intro bound reaches
    refine or_iff_not_imp_right.mpr fun cached => ?_
    exact eq_one_of_stays parallel (stays_doAttempt (not_not.mp cached)) reaches
  have doReaches : ck.servers.length = 1 ∨ ¬ ck.Cached →
      Reaches doAttempt WriteResponse.LeaderUnknown ck ck.servers.length := by
    rintro (single | unknown)
    · rw [single]
      exact reaches_of_eq_one parallel single
    · exact reaches_of_not_cached unknown
  exact ⟨⟨⟨getStuck, getReaches⟩, fun ⟨_, reaches⟩ => getStuck reaches,
      fun single => ⟨_, getReaches single⟩⟩,
    ⟨doStuck, doReaches⟩, fun ⟨_, reaches⟩ => doStuck reaches,
      fun allowed => ⟨_, doReaches allowed⟩⟩

/-- A new clerk of two servers: `Do` reaches both, `Get` does not. -/
theorem reaches_every_server_fresh :
    Reaches doAttempt WriteResponse.LeaderUnknown fresh 2 ∧
      ¬ ∃ bound, Reaches getAttempt GetResponse.LeaderUnknown fresh bound := by
  have parallel : fresh.Parallel := ⟨by decide, rfl⟩
  obtain ⟨⟨-, getReaches⟩, doReaches, -⟩ := reaches_every_server_iff parallel
  constructor
  · exact doReaches.mpr (.inr (by decide))
  · intro reaches
    exact absurd (getReaches.mp reaches) (by decide)

/-- `Get` of a new clerk with two servers stays with the first one, and `Do` with the
leader it knows, for any number of failing calls. -/
theorem retries_stay_with_one_server :
    fresh.servers.length = 2 ∧ ∀ bound,
      contacted getAttempt fresh (List.replicate bound .callFailed) =
          List.replicate bound 0 ∧
        contacted doAttempt { fresh with leaderId := 2 } (List.replicate bound .callFailed) =
          List.replicate bound 1 := by
  refine ⟨rfl, fun bound => ⟨?_, ?_⟩⟩
  · exact contacted_of_stays (stays_getAttempt fresh) bound
  · have cached : { fresh with leaderId := 2 }.Cached := by decide
    exact contacted_of_stays (stays_doAttempt cached) bound

end Clerk

/-! ## Backoff -/

/-- Nanoseconds in the signed 64 bits of a `time.Duration`. -/
def millisecond : BitVec 64 := 1000000#64

def second : BitVec 64 := 1000#64 * millisecond

def maxInt64 : BitVec 64 := BitVec.intMax 64

/-- How long the clerk sleeps after an attempt.  Shift and products wrap. -/
def backoff (attempt : Nat) : BitVec 64 :=
  let d := 50#64 * (1#64 <<< attempt) * millisecond
  let d := if second.slt d then second else d
  if d.slt 0#64 ∨ d = maxInt64 then second else d

/-- From attempt `57` on every bit of the product is shifted out. -/
theorem backoff_of_le {n : Nat} (late : 57 ≤ n) : backoff n = 0#64 := by
  obtain ⟨j, rfl⟩ := Nat.exists_eq_add_of_le late
  have shifted : 1#64 <<< (57 + j) = (1#64 <<< 57) * BitVec.twoPow 64 j := by
    rw [BitVec.shiftLeft_add, BitVec.shiftLeft_eq_mul_twoPow (1#64 <<< 57)]
  have wraps : 50#64 * (1#64 <<< 57) * millisecond = 0#64 := by decide
  have gone : 50#64 * (1#64 <<< (57 + j)) * millisecond = 0#64 := by
    rw [shifted, ← BitVec.mul_assoc, BitVec.mul_assoc _ (BitVec.twoPow 64 j),
      BitVec.mul_comm (BitVec.twoPow 64 j), ← BitVec.mul_assoc, wraps, BitVec.zero_mul]
  unfold backoff
  rw [gone]
  -- a zero passes both guards
  decide

theorem backoff_in_range : ∀ n < 57,
    50 * millisecond.toInt ≤ (backoff n).toInt ∧ (backoff n).toInt ≤ second.toInt := by
  decide

theorem backoff_mono {m n : Nat} (le : m ≤ n) (early : n < 57) :
    (backoff m).toInt ≤ (backoff n).toInt := by
  have step : ∀ n < 56, (backoff n).toInt ≤ (backoff (n + 1)).toInt := by decide
  induction n, le using Nat.le_induction with
  | base => exact le_refl _
  | succ n le ih => exact (ih (by omega)).trans (step n (by omega))

/-- The clerk sleeps between 50 ms and a second, and not less than before, exactly up to
attempt `56`. -/
theorem backoff_in_range_iff (n : Nat) :
    (50 * millisecond.toInt ≤ (backoff n).toInt ∧ (backoff n).toInt ≤ second.toInt ∧
        ∀ m ≤ n, (backoff m).toInt ≤ (backoff n).toInt) ↔
      n < 57 := by
  constructor
  · rintro ⟨least, -, -⟩
    by_contra late
    rw [backoff_of_le (Nat.not_lt.mp late)] at least
    exact absurd least (by decide)
  · intro early
    obtain ⟨least, greatest⟩ := backoff_in_range n early
    exact ⟨least, greatest, fun m le => backoff_mono le early⟩

/-- The retry loops come to attempt `57`, after which the clerk does not sleep at all. -/
theorem backoff_at_57 :
    57 < maxClerkAttempts ∧ (backoff 56).toInt = second.toInt ∧ (backoff 57).toInt = 0 := by
  decide

end DistribKV.KV
