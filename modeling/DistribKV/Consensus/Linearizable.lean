import DistribKV.Consensus.Runs
import Mathlib.Data.List.Induction
import Mathlib.Data.List.Nodup
import Mathlib.Logic.Relation

/-!
# Linearizability

A concurrent object shows the invocations and responses of its calls and nothing
else.  Such a history is linearizable when the calls that were answered, and some
of those that were not, can be put in one order in which each answer is the one of
a sequential object, and no call comes before one that was answered before its
invocation.

The abstract machine of this module is an object with a log.  A call is entered in
the log at some moment after its invocation, and answered from its place there.
Every history of the machine is linearizable, so it is enough to simulate it.
-/

namespace Consensus

universe u v w x

variable {κ : Type u} {ω : Type v} {α : Type w} {σ : Type x}

/-- A sequential object: what an operation does, and what it answers. -/
structure Sequential (σ : Type x) (ω : Type v) (α : Type w) where
  initial : σ
  apply : σ → ω → σ
  answer : σ → ω → α

/-- The state after a sequence of operations. -/
def Sequential.after (object : Sequential σ ω α) (ops : List ω) : σ :=
  ops.foldl object.apply object.initial

/-- What can be seen of a call.  A response without an answer leaves open whether
the operation has taken or will take effect. -/
inductive Occurrence (κ : Type u) (ω : Type v) (α : Type w) where
  | invoked (call : κ) (op : ω)
  | responded (call : κ) (answer : Option α)
  deriving DecidableEq

/-- Call `a` was answered before call `b` was invoked.  Histories are written with
the newest event first. -/
def Precedes (history : List (Occurrence κ ω α)) (a b : κ) : Prop :=
  ∃ recent past op answer, history = recent ++ .invoked b op :: past ∧
    .responded a (some answer) ∈ past

/-- The calls took effect one at a time in the given order. -/
structure Linearization (object : Sequential σ ω α) (history : List (Occurrence κ ω α))
    (order : List (κ × ω)) : Prop where
  once : (order.map Prod.fst).Nodup
  invoked : ∀ {call op}, (call, op) ∈ order → .invoked call op ∈ history
  answered : ∀ {call answer}, .responded call (some answer) ∈ history →
    ∃ before op after, order = before ++ (call, op) :: after ∧
      answer = object.answer (object.after (before.map Prod.snd)) op
  realTime : order.Pairwise fun earlier later => ¬ Precedes history later.1 earlier.1

def Linearizable (object : Sequential σ ω α) (history : List (Occurrence κ ω α)) : Prop :=
  ∃ order, Linearization object history order

/-! ## Precedence -/

section Precedes

variable {history : List (Occurrence κ ω α)} {a b call : κ}

theorem Precedes.answered (precedes : Precedes history a b) :
    ∃ answer, .responded a (some answer) ∈ history := by
  obtain ⟨recent, past, op, answer, rfl, responded⟩ := precedes
  exact ⟨answer, by simp [responded]⟩

/-- A response to one call decides nothing about calls invoked before. -/
theorem precedes_responded_cons {answer : Option α} :
    Precedes (.responded call answer :: history) a b ↔ Precedes history a b := by
  constructor
  · rintro ⟨recent, past, op, given, split, responded⟩
    cases recent with
    | nil => simp at split
    | cons event recent =>
        simp only [List.cons_append, List.cons.injEq] at split
        exact ⟨recent, past, op, given, split.2, responded⟩
  · rintro ⟨recent, past, op, given, rfl, responded⟩
    exact ⟨_ :: recent, past, op, given, rfl, responded⟩

/-- An invocation puts a call after those that have been answered. -/
theorem Precedes.of_invoked_cons {op : ω} (precedes : Precedes (.invoked call op :: history) a b) :
    b = call ∨ Precedes history a b := by
  obtain ⟨recent, past, op', given, split, responded⟩ := precedes
  cases recent with
  | nil =>
      simp only [List.nil_append, List.cons.injEq, Occurrence.invoked.injEq] at split
      exact .inl split.1.1.symm
  | cons event recent =>
      simp only [List.cons_append, List.cons.injEq] at split
      exact .inr ⟨recent, past, op', given, split.2, responded⟩

end Precedes

/-! ## The object with a log -/

/-- The machine: its history, newest event first, and its log, oldest entry first. -/
structure Recorder (κ : Type u) (ω : Type v) (α : Type w) where
  history : List (Occurrence κ ω α) := []
  log : List (κ × ω) := []

namespace Recorder

variable {object : Sequential σ ω α} {r r' : Recorder κ ω α}

inductive Step (object : Sequential σ ω α) (r : Recorder κ ω α) : Recorder κ ω α → Prop where
  | invoke {call : κ} {op : ω} (fresh : ∀ op', .invoked call op' ∉ r.history) :
      Step object r { r with history := .invoked call op :: r.history }
  | enter {call : κ} {op : ω} (invoked : .invoked call op ∈ r.history)
      (fresh : call ∉ r.log.map Prod.fst) :
      Step object r { r with log := r.log ++ [(call, op)] }
  | answer {before after : List (κ × ω)} {call : κ} {op : ω}
      (entered : r.log = before ++ (call, op) :: after) :
      Step object r { r with
        history := .responded call
          (some (object.answer (object.after (before.map Prod.snd)) op)) :: r.history }
  | fail {call : κ} :
      Step object r { r with history := .responded call none :: r.history }

/-- Any number of steps. -/
def Reaches (object : Sequential σ ω α) : Recorder κ ω α → Recorder κ ω α → Prop :=
  Relation.ReflTransGen (Step object)

/-- The log is a linearization of the history, and stays one. -/
theorem linearization_step (linearization : Linearization object r.history r.log)
    (step : Step object r r') : Linearization object r'.history r'.log := by
  obtain ⟨once, invoked, answered, realTime⟩ := linearization
  cases step with
  | @invoke call op fresh =>
      refine ⟨once, fun member => .tail _ (invoked member), fun responded => ?_, ?_⟩
      · rcases List.mem_cons.mp responded with impossible | old
        · cases impossible
        · exact answered old
      · -- the new call has no entry yet
        refine realTime.imp_of_mem fun {earlier later} member _ before precedes => ?_
        rcases precedes.of_invoked_cons with same | old
        · obtain ⟨other, op'⟩ := earlier
          exact fresh op' (same ▸ invoked member)
        · exact before old
  | @enter call op isInvoked fresh =>
      refine ⟨?_, fun member => ?_, fun responded => ?_, ?_⟩
      · simp only [List.map_append, List.map_cons, List.map_nil]
        exact List.nodup_append.mpr ⟨once, List.nodup_singleton _, by
          intro a member b single same
          rw [List.mem_singleton] at single
          exact fresh (single ▸ same ▸ member)⟩
      · rcases List.mem_append.mp member with old | new
        · exact invoked old
        · cases List.mem_singleton.mp new
          exact isInvoked
      · obtain ⟨before, op', after, log, given⟩ := answered responded
        exact ⟨before, op', after ++ [(call, op)], by rw [log]; simp, given⟩
      · -- what has been answered is in the log already
        rw [List.pairwise_append]
        refine ⟨realTime, List.pairwise_singleton _ _, ?_⟩
        intro earlier _ later single precedes
        rw [List.mem_singleton.mp single] at precedes
        obtain ⟨answer, responded⟩ := precedes.answered
        obtain ⟨before, op', after, log, -⟩ := answered responded
        exact fresh (by rw [log]; simp)
  | @answer before after call op entered =>
      refine ⟨once, fun member => .tail _ (invoked member), fun responded => ?_, ?_⟩
      · rcases List.mem_cons.mp responded with new | old
        · cases new
          exact ⟨before, op, after, entered, rfl⟩
        · exact answered old
      · exact realTime.imp fun before precedes => before (precedes_responded_cons.mp precedes)
  | fail =>
      refine ⟨once, fun member => .tail _ (invoked member), fun responded => ?_, ?_⟩
      · rcases List.mem_cons.mp responded with impossible | old
        · cases impossible
        · exact answered old
      · exact realTime.imp fun before precedes => before (precedes_responded_cons.mp precedes)

theorem linearization_of_reaches (reached : Reaches object {} r) :
    Linearization object r.history r.log := by
  induction reached with
  | refl => exact ⟨.nil, nofun, nofun, .nil⟩
  | tail _ step ih => exact linearization_step ih step

/-- Entering several calls that have been invoked, none of them twice. -/
theorem reaches_enter {entries : List (κ × ω)}
    (invoked : ∀ call op, (call, op) ∈ entries → .invoked call op ∈ r.history)
    (once : ((r.log ++ entries).map Prod.fst).Nodup) :
    Reaches object r { r with log := r.log ++ entries } := by
  induction entries using List.reverseRecOn with
  | nil =>
      rw [List.append_nil]
      exact .refl
  | append_singleton entries entry ih =>
      rw [← List.append_assoc, List.map_append, List.nodup_append] at once
      obtain ⟨onceBefore, -, apart⟩ := once
      refine .tail (ih (fun call op member => invoked call op (List.mem_append_left _ member))
        onceBefore) ?_
      rw [← List.append_assoc]
      exact .enter (r := { r with log := r.log ++ entries }) (invoked _ _ (by simp))
        fun member => apart _ member entry.1 (by simp) rfl

end Recorder

/-- A system that simulates the object with a log shows linearizable histories only;
the log is the order. -/
theorem linearization_of_simulation {τ : Type*} {β : Type*} {step : τ → β → Option τ}
    {ok : τ → β → Prop} {s t : τ} {object : Sequential σ ω α}
    {rel : τ → Recorder κ ω α → Prop} (run : Run step ok s t) (initial : rel s {})
    (simulates : ∀ {t u : τ} {a : β} {r : Recorder κ ω α}, rel t r → ok t a →
      step t a = some u → ∃ r', Recorder.Reaches object r r' ∧ rel u r') :
    ∃ r, rel t r ∧ Linearization object r.history r.log := by
  have simulated : ∃ r, Recorder.Reaches object {} r ∧ rel t r := by
    apply run.invariant
    · exact ⟨{}, .refl, initial⟩
    rintro t u a ⟨r, reached, related⟩ allowed stepped
    obtain ⟨r', further, related'⟩ := simulates related allowed stepped
    exact ⟨r', reached.trans further, related'⟩
  obtain ⟨r, reached, related⟩ := simulated
  exact ⟨r, related, Recorder.linearization_of_reaches reached⟩

end Consensus
