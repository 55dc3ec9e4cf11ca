import Mathlib.Data.List.Basic
import DistribKV.Storage.Files

/-!
# Programs that a crash can cut off

A program goes through states one step at a time, and a crash leaves the state that it is
in.  Besides what holds when a program returns, a specification therefore says what holds
of every state on the way.  The rules follow the structure of programs.
-/

namespace Storage

universe u

/-- What a program did: the states that steps started from, in order, the last state and
the value it returned. -/
structure Execution (σ α : Type u) where
  states : List σ
  last : σ
  value : α

namespace Execution

variable {σ α : Type u}

/-- The states that a crash can leave. -/
def cuts (e : Execution σ α) : List σ := e.states ++ [e.last]

end Execution

/-- A program on states. -/
def Program (σ α : Type u) : Type u := σ → Execution σ α

namespace Program

variable {σ α β : Type u}

instance : Monad (Program σ) where
  pure a s := ⟨[], s, a⟩
  bind p f s :=
    let first := p s
    let second := f first.value first.last
    ⟨first.states ++ second.states, second.last, second.value⟩

/-- A single step. -/
def modify (f : σ → σ) : Program σ PUnit := fun s => ⟨[s], f s, ⟨⟩⟩

/-- Started where `pre` holds, the program returns where `post` holds, and `cut` holds of
every state that it leaves on the way. -/
def Triple (pre : σ → Prop) (p : Program σ α) (post : α → σ → Prop) (cut : σ → Prop) : Prop :=
  ∀ s, pre s → (∀ seen ∈ (p s).states, cut seen) ∧ post (p s).value (p s).last

variable {pre : σ → Prop} {cut : σ → Prop}

theorem Triple.pure {a : α} {post : α → σ → Prop} (returns : ∀ s, pre s → post a s) :
    Triple pre (Pure.pure a) post cut := by
  intro s holds
  exact ⟨fun seen mem => (List.not_mem_nil mem).elim, returns s holds⟩

theorem Triple.bind {p : Program σ α} {f : α → Program σ β} {mid : α → σ → Prop}
    {post : β → σ → Prop} (first : Triple pre p mid cut)
    (second : ∀ a, Triple (mid a) (f a) post cut) : Triple pre (p >>= f) post cut := by
  intro s holds
  obtain ⟨before, reached⟩ := first s holds
  obtain ⟨after, returned⟩ := second _ _ reached
  refine ⟨fun seen mem => ?_, returned⟩
  rcases List.mem_append.mp mem with early | late
  · exact before seen early
  · exact after seen late

theorem Triple.modify {f : σ → σ} {post : PUnit → σ → Prop}
    (step : ∀ s, pre s → cut s ∧ post ⟨⟩ (f s)) : Triple pre (Program.modify f) post cut := by
  intro s holds
  obtain ⟨here, next⟩ := step s holds
  exact ⟨fun seen mem => List.mem_singleton.mp mem ▸ here, next⟩

/-- A fact that does not depend on the state. -/
theorem Triple.of_fact {fact : Prop} {p : Program σ α} {post : α → σ → Prop}
    (triple : fact → Triple pre p post cut) : Triple (fun s => fact ∧ pre s) p post cut :=
  fun s holds => triple holds.1 s holds.2

end Program

/-! ## Files -/

namespace Directory

/-- Delete a file. -/
def remove (dir : Directory) (name : String) : Directory :=
  Function.update dir name none

/-- Add a byte to the end of a file. -/
def append (dir : Directory) (name : String) (byte : UInt8) : Directory :=
  dir.write name ((dir name).getD [] ++ [byte])

/-- Write bytes one after the other to the end of a file. -/
def appendAll (name : String) : List UInt8 → Program Directory Unit
  | [] => pure ()
  | byte :: data => do
      Program.modify (·.append name byte)
      appendAll name data

/-- The two directories hold the same files, except for one name. -/
def AgreeOff (name : String) (dir seen : Directory) : Prop :=
  ∀ other, other ≠ name → seen other = dir other

theorem AgreeOff.refl (name : String) (dir : Directory) : AgreeOff name dir dir :=
  fun _ _ => rfl

theorem AgreeOff.write (name : String) (dir : Directory) (data : List UInt8) :
    AgreeOff name dir (dir.write name data) :=
  fun _ other => Function.update_of_ne other _ _

theorem AgreeOff.remove (name : String) (dir : Directory) :
    AgreeOff name dir (dir.remove name) :=
  fun _ other => Function.update_of_ne other _ _

theorem write_append (dir : Directory) (name : String) (data : List UInt8) (byte : UInt8) :
    (dir.write name data).append name byte = dir.write name (data ++ [byte]) := by
  simp [append, write]

theorem write_remove (dir : Directory) (name : String) (data : List UInt8) :
    (dir.write name data).remove name = dir.remove name := by
  simp [remove, write]

/-- Cut off, writing leaves a part of the data in the file. -/
theorem appendAll_triple (dir : Directory) (name : String) (written data : List UInt8) :
    Program.Triple (· = dir.write name written) (appendAll name data)
      (fun _ s => s = dir.write name (written ++ data)) (AgreeOff name dir) := by
  induction data generalizing written with
  | nil =>
      refine .pure fun s here => ?_
      rw [here, List.append_nil]
  | cons byte data ih =>
      have step : Program.Triple (· = dir.write name written)
          (Program.modify (·.append name byte))
          (fun _ s => s = dir.write name (written ++ [byte])) (AgreeOff name dir) := by
        apply Program.Triple.modify
        rintro _ rfl
        exact ⟨.write name dir written, write_append dir name written byte⟩
      refine step.bind fun _ => ?_
      have rest := ih (written ++ [byte])
      rw [List.append_assoc] at rest
      exact rest

end Directory

end Storage
