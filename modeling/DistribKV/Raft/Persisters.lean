import Mathlib.Logic.Equiv.List
import DistribKV.Storage.Files
import DistribKV.Consensus.Lockstep
import DistribKV.Raft.Types

/-!
# The two persisters

`MemoryPersister` and `FilePersister` of `raft/persister.go`, call by call.  Both are
compared with what a persister is for: to hand back what was stored last.

File names are those of one directory.  File I/O succeeds; `encoding/json` and
`encoding/base64` are parameters that decode what they have encoded.
-/

namespace DistribKV

open Consensus Storage

/-- `LogEntry` with its machine integers. -/
structure RawEntry where
  index : Int64
  term : Int64
  command : Bytes
  deriving DecidableEq

/-! ## Memory -/

/-- The in-memory persister; `log` is `none` for a nil slice. -/
structure MemoryPersister where
  currentTerm : Int64 := 0
  votedFor : Int64 := -1
  log : Option (List RawEntry) := none
  saveErr : Option String := none
  snapshot : Bytes := []
  snapshotIndex : Int64 := 0
  snapshotTerm : Int64 := 0
  hasSnapshot : Bool := false

def errNoSnapshot : String := "snapshot does not exist"

namespace MemoryPersister

/-- The second component is the error, `none` for success. -/
def save (m : MemoryPersister) (currentTerm votedFor : Int64) (log : List RawEntry) :
    MemoryPersister × Option String :=
  match m.saveErr with
  | some err => (m, some err)
  | none => ({ m with currentTerm, votedFor, log := some log }, none)

/-- Nothing has been saved as long as every field is as in a new persister. -/
def load (m : MemoryPersister) : Except String (Int64 × Int64 × List RawEntry) :=
  if m.log = none ∧ m.currentTerm = 0 ∧ m.votedFor = -1 then
    .error "persisted state does not exist"
  else .ok (m.currentTerm, m.votedFor, m.log.getD [])

def saveSnapshot (m : MemoryPersister) (data : Bytes)
    (lastIncludedIndex lastIncludedTerm : Int64) : MemoryPersister × Option String :=
  match m.saveErr with
  | some err => (m, some err)
  | none =>
      ({ m with
        snapshot := data
        snapshotIndex := lastIncludedIndex
        snapshotTerm := lastIncludedTerm
        hasSnapshot := true }, none)

def loadSnapshot (m : MemoryPersister) : Except String (Bytes × Int64 × Int64) :=
  if m.hasSnapshot then .ok (m.snapshot, m.snapshotIndex, m.snapshotTerm)
  else .error errNoSnapshot

end MemoryPersister

/-! ## Files -/

/-- One entry in the durable format. -/
structure PersistentEntry where
  index : Int64
  term : Int64
  command : String
  deriving DecidableEq

structure PersistentState where
  currentTerm : Int64
  votedFor : Int64
  log : List PersistentEntry
  deriving DecidableEq

/-- The encodings that the file persister relies on. -/
structure Codec where
  marshalIndent : PersistentState → Except String Bytes
  unmarshal : Bytes → Except String PersistentState
  encodeToString : Bytes → String
  decodeString : String → Except String Bytes
  json_roundTrip : ∀ state, ∃ data, marshalIndent state = .ok data ∧ unmarshal data = .ok state
  base64_roundTrip : ∀ command, decodeString (encodeToString command) = .ok command

/-- The names of the two files of a `FilePersister`. -/
structure FilePersister where
  filename : String
  snapshotFile : String

namespace FilePersister

/-- `NewFilePersister`; the snapshot lies beside the state. -/
def new (filename : String) : FilePersister where
  filename := filename
  snapshotFile := "snapshot.bin"

/-- The magic bytes `DSKVSNP1`. -/
def snapshotMagic : Bytes := [0x44, 0x53, 0x4b, 0x56, 0x53, 0x4e, 0x50, 0x31]

def snapshotHdrSz : Nat := snapshotMagic.length + 8 + 8

/-- Write to `<target>.tmp` and rename into place. -/
def atomicWrite (dir : Directory) (target : String) (data : Bytes) : Directory :=
  dir.replace (target ++ ".tmp") target data

variable (codec : Codec) (p : FilePersister) (dir : Directory)

def persistentEntry (entry : RawEntry) : PersistentEntry where
  index := entry.index
  term := entry.term
  command := codec.encodeToString entry.command

def save (currentTerm votedFor : Int64) (log : List RawEntry) : Directory × Option String :=
  let state : PersistentState := {
    currentTerm
    votedFor
    log := log.map (persistentEntry codec) }
  match codec.marshalIndent state with
  | .error err => (dir, some ("encode state: " ++ err))
  | .ok data => (atomicWrite dir p.filename data, none)

/-- The loop of `Load` over the stored entries, from entry `i` on. -/
def decodeLog : Nat → List PersistentEntry → Except String (List RawEntry)
  | _, [] => .ok []
  | i, entry :: rest =>
      match codec.decodeString entry.command with
      | .error err => .error ("decode log entry " ++ toString i ++ " command: " ++ err)
      | .ok command =>
          match decodeLog (i + 1) rest with
          | .error err => .error err
          | .ok log => .ok (⟨entry.index, entry.term, command⟩ :: log)

def load : Except String (Int64 × Int64 × List RawEntry) :=
  match dir p.filename with
  | none =>
      .error ("persisted state file does not exist: stat " ++ p.filename ++
        ": no such file or directory")
  | some data =>
      match codec.unmarshal data with
      | .error err => .error ("decode persisted state: " ++ err)
      | .ok state =>
          match decodeLog codec 0 state.log with
          | .error err => .error err
          | .ok log => .ok (state.currentTerm, state.votedFor, log)

/-- The bytes of the snapshot file. -/
def snapshotBytes (data : Bytes) (lastIncludedIndex lastIncludedTerm : Int64) : Bytes :=
  snapshotMagic ++ putUint64 lastIncludedIndex.toUInt64 ++ putUint64 lastIncludedTerm.toUInt64 ++
    data

def saveSnapshot (data : Bytes) (lastIncludedIndex lastIncludedTerm : Int64) :
    Directory × Option String :=
  (atomicWrite dir p.snapshotFile (snapshotBytes data lastIncludedIndex lastIncludedTerm), none)

def loadSnapshot : Except String (Bytes × Int64 × Int64) :=
  match dir p.snapshotFile with
  | none => .error (errNoSnapshot ++ ": " ++ p.snapshotFile)
  | some raw =>
      if raw.length < snapshotHdrSz then
        .error ("snapshot too short (" ++ toString raw.length ++ " bytes, need " ++
          toString snapshotHdrSz ++ ")")
      else if raw.take 8 ≠ snapshotMagic then .error "snapshot header corrupt (bad magic)"
      else
        .ok (raw.drop snapshotHdrSz, (uint64 ((raw.drop 8).take 8)).toInt64,
          (uint64 ((raw.drop 16).take 8)).toInt64)

end FilePersister

/-! ## Calls and what they return -/

/-- A call of the `Persister` interface. -/
inductive PersisterCall where
  | save (currentTerm votedFor : Int64) (log : List RawEntry)
  | load
  | saveSnapshot (data : Bytes) (lastIncludedIndex lastIncludedTerm : Int64)
  | loadSnapshot
  deriving DecidableEq

/-- What a call returns; errors are not told apart. -/
inductive PersisterReply where
  | failed
  | stored
  | state (currentTerm votedFor : Int64) (log : List RawEntry)
  | snapshot (data : Bytes) (lastIncludedIndex lastIncludedTerm : Int64)
  deriving DecidableEq

namespace PersisterReply

def ofSave : Option String → PersisterReply
  | none => .stored
  | some _ => .failed

def ofLoad : Except String (Int64 × Int64 × List RawEntry) → PersisterReply
  | .error _ => .failed
  | .ok (currentTerm, votedFor, log) => .state currentTerm votedFor log

def ofLoadSnapshot : Except String (Bytes × Int64 × Int64) → PersisterReply
  | .error _ => .failed
  | .ok (data, lastIncludedIndex, lastIncludedTerm) =>
      .snapshot data lastIncludedIndex lastIncludedTerm

end PersisterReply

open PersisterReply

def MemoryPersister.call (m : MemoryPersister) :
    PersisterCall → MemoryPersister × PersisterReply
  | .save currentTerm votedFor log => (m.save currentTerm votedFor log).map id ofSave
  | .load => (m, ofLoad m.load)
  | .saveSnapshot data index term => (m.saveSnapshot data index term).map id ofSave
  | .loadSnapshot => (m, ofLoadSnapshot m.loadSnapshot)

def FilePersister.call (codec : Codec) (p : FilePersister) (dir : Directory) :
    PersisterCall → Directory × PersisterReply
  | .save currentTerm votedFor log =>
      (p.save codec dir currentTerm votedFor log).map id ofSave
  | .load => (dir, ofLoad (p.load codec dir))
  | .saveSnapshot data index term => (p.saveSnapshot dir data index term).map id ofSave
  | .loadSnapshot => (dir, ofLoadSnapshot (p.loadSnapshot dir))

/-! ## What a persister is for -/

/-- What was stored last. -/
structure Kept where
  state : Option (Int64 × Int64 × List RawEntry) := none
  snapshot : Option (Bytes × Int64 × Int64) := none

namespace Kept

def load (k : Kept) : PersisterReply :=
  match k.state with
  | none => .failed
  | some (currentTerm, votedFor, log) => .state currentTerm votedFor log

def loadSnapshot (k : Kept) : PersisterReply :=
  match k.snapshot with
  | none => .failed
  | some (data, index, term) => .snapshot data index term

/-- The calls on what is kept.  With `clobbers`, storing a snapshot loses the state. -/
def call (clobbers : Bool) (k : Kept) : PersisterCall → Kept × PersisterReply
  | .save currentTerm votedFor log =>
      ({ k with state := some (currentTerm, votedFor, log) }, .stored)
  | .load => (k, k.load)
  | .saveSnapshot data index term =>
      ({ state := if clobbers then none else k.state
         snapshot := some (data, index, term) }, .stored)
  | .loadSnapshot => (k, k.loadSnapshot)

end Kept

/-! ## Memory keeps what it is told -/

/-- A memory persister without an injected error that holds what is kept. -/
structure MemoryPersister.Holds (m : MemoryPersister) (k : Kept) : Prop where
  working : m.saveErr = none
  state : m.log.map (fun log => (m.currentTerm, m.votedFor, log)) = k.state
  unsaved : m.log = none → m.currentTerm = 0 ∧ m.votedFor = -1
  snapshot : (if m.hasSnapshot then some (m.snapshot, m.snapshotIndex, m.snapshotTerm) else none) =
    k.snapshot

namespace MemoryPersister.Holds

variable {m : MemoryPersister} {k : Kept}

/-- A new persister. -/
theorem initial : Holds {} {} := ⟨rfl, rfl, fun _ => ⟨rfl, rfl⟩, rfl⟩

theorem call (holds : m.Holds k) (c : PersisterCall) :
    (m.call c).2 = (k.call false c).2 ∧ (m.call c).1.Holds (k.call false c).1 := by
  obtain ⟨working, state, unsaved, snapshot⟩ := holds
  cases c with
  | save currentTerm votedFor log =>
      simp only [MemoryPersister.call, save, working]
      exact ⟨rfl, rfl, rfl, (fun unsaved => nomatch unsaved), snapshot⟩
  | load =>
      refine ⟨?_, working, state, unsaved, snapshot⟩
      simp only [MemoryPersister.call, load, Kept.call, Kept.load, ← state]
      cases saved : m.log with
      | none => simp [unsaved saved, PersisterReply.ofLoad]
      | some log => simp [PersisterReply.ofLoad]
  | saveSnapshot data index term =>
      simp only [MemoryPersister.call, saveSnapshot, working]
      exact ⟨rfl, rfl, state, unsaved, rfl⟩
  | loadSnapshot =>
      refine ⟨?_, working, state, unsaved, snapshot⟩
      simp only [MemoryPersister.call, loadSnapshot, Kept.call, Kept.loadSnapshot, ← snapshot]
      split <;> rfl

end MemoryPersister.Holds

/-! ## Files keep what they are told, with one exception -/

namespace FilePersister

variable {codec : Codec} {p : FilePersister} {dir : Directory} {k : Kept}

theorem decodeLog_map (codec : Codec) (i : Nat) (log : List RawEntry) :
    decodeLog codec i (log.map (persistentEntry codec)) = .ok log := by
  induction log generalizing i with
  | nil => rfl
  | cons entry rest ih =>
      simp only [List.map_cons, decodeLog, persistentEntry, codec.base64_roundTrip]
      rw [ih]

/-- A file with the given state reads back as that state. -/
def Stores (codec : Codec) (file : Option Bytes) (state : Int64 × Int64 × List RawEntry) : Prop :=
  ∃ data, file = some data ∧
    codec.unmarshal data = .ok ⟨state.1, state.2.1, state.2.2.map (persistentEntry codec)⟩

/-- A directory that holds what is kept. -/
structure Holds (codec : Codec) (p : FilePersister) (dir : Directory) (k : Kept) : Prop where
  missing : k.state = none → dir p.filename = none
  state : ∀ state, k.state = some state → Stores codec (dir p.filename) state
  snapshot : dir p.snapshotFile =
    k.snapshot.map fun file => snapshotBytes file.1 file.2.1 file.2.2

/-- The header is read back as it was written. -/
theorem loadSnapshot_of_snapshotBytes {data : Bytes} {index term : Int64}
    (stored : dir p.snapshotFile = some (snapshotBytes data index term)) :
    p.loadSnapshot dir = .ok (data, index, term) := by
  have magic : snapshotMagic.length = 8 := rfl
  have indexBytes := length_putUint64 index.toUInt64
  have termBytes := length_putUint64 term.toUInt64
  have size : snapshotHdrSz = 24 := rfl
  have long : ¬ (snapshotBytes data index term).length < snapshotHdrSz := by
    simp only [snapshotBytes, List.length_append]
    omega
  have head : (snapshotBytes data index term).take 8 = snapshotMagic := by
    rw [snapshotBytes, List.append_assoc, List.append_assoc, List.take_left' magic]
  have atIndex : ((snapshotBytes data index term).drop 8).take 8 =
      putUint64 index.toUInt64 := by
    rw [snapshotBytes, List.append_assoc, List.append_assoc, List.drop_left' magic,
      List.take_left' indexBytes]
  have atTerm : ((snapshotBytes data index term).drop 16).take 8 = putUint64 term.toUInt64 := by
    rw [snapshotBytes, List.append_assoc, List.drop_left' (by
      rw [List.length_append, magic, indexBytes]), List.take_left' termBytes]
  have payload : (snapshotBytes data index term).drop snapshotHdrSz = data := by
    rw [snapshotBytes, List.drop_left' (by
      rw [List.length_append, List.length_append, magic, indexBytes, termBytes, size])]
  simp only [loadSnapshot, stored, if_neg long, head, ne_eq, not_true_eq_false, if_false, payload,
    atIndex, atTerm, uint64_putUint64]
  rfl

/-- No temporary file is the file it is for. -/
theorem append_tmp_ne (name : String) : name ++ ".tmp" ≠ name := by
  intro same
  have lengths := congrArg String.length same
  simp at lengths

theorem append_tmp_ne_snapshot (name : String) : name ++ ".tmp" ≠ "snapshot.bin" := by
  intro same
  have last := congrArg (fun s : String => s.toList.getLast?) same
  simp at last

namespace Holds

/-- An empty directory. -/
theorem initial (codec : Codec) (filename : String) :
    Holds codec (.new filename) (fun _ => none) {} :=
  ⟨fun _ => rfl, (fun _ unsaved => nomatch unsaved), rfl⟩

variable {filename : String}

theorem save (holds : Holds codec (.new filename) dir k) (other : filename ≠ "snapshot.bin")
    (clobbers : Bool) (currentTerm votedFor : Int64) (log : List RawEntry) :
    ((new filename).call codec dir (.save currentTerm votedFor log)).2 = .stored ∧
      Holds codec (.new filename)
        ((new filename).call codec dir (.save currentTerm votedFor log)).1
        (k.call clobbers (.save currentTerm votedFor log)).1 := by
  obtain ⟨data, encoded, decodes⟩ := codec.json_roundTrip
    ⟨currentTerm, votedFor, log.map (persistentEntry codec)⟩
  simp only [FilePersister.call, FilePersister.save, encoded]
  refine ⟨rfl, (fun unsaved => nomatch unsaved), ?_, ?_⟩
  · rintro state ⟨⟩
    exact ⟨data, dir.replace_target data (append_tmp_ne filename).symm, decodes⟩
  · refine Eq.trans (dir.replace_other data ?_ ?_) holds.snapshot
    · exact (append_tmp_ne_snapshot filename).symm
    · exact other.symm

theorem load (holds : Holds codec (.new filename) dir k) :
    ((new filename).call codec dir .load).2 = k.load := by
  simp only [FilePersister.call, FilePersister.load, Kept.load]
  cases saved : k.state with
  | none => simp [holds.missing saved, ofLoad]
  | some state =>
      obtain ⟨data, file, decodes⟩ := holds.state state saved
      simp [file, decodes, decodeLog_map, ofLoad]

/-- The snapshot's temporary file is the state file when that has its name. -/
theorem saveSnapshot (holds : Holds codec (.new filename) dir k)
    (other : filename ≠ "snapshot.bin") (data : Bytes) (index term : Int64) :
    ((new filename).call codec dir (.saveSnapshot data index term)).2 = .stored ∧
      Holds codec (.new filename)
        ((new filename).call codec dir (.saveSnapshot data index term)).1
        (k.call (decide (filename = "snapshot.bin.tmp")) (.saveSnapshot data index term)).1 := by
  refine ⟨rfl, ?_⟩
  have snapshot : dir.replace ("snapshot.bin" ++ ".tmp") "snapshot.bin"
      (snapshotBytes data index term) "snapshot.bin" =
        some (snapshotBytes data index term) :=
    dir.replace_target _ (append_tmp_ne _).symm
  by_cases shared : filename = "snapshot.bin.tmp"
  · have gone : dir.replace ("snapshot.bin" ++ ".tmp") "snapshot.bin"
        (snapshotBytes data index term) filename = none := by
      rw [shared]
      exact dir.replace_temp _
    simp only [Kept.call, shared, decide_true, if_true] at gone ⊢
    exact ⟨fun _ => gone, (fun _ unsaved => nomatch unsaved), snapshot⟩
  · have same : dir.replace ("snapshot.bin" ++ ".tmp") "snapshot.bin"
        (snapshotBytes data index term) filename = dir filename :=
      dir.replace_other _ shared other
    simp only [Kept.call, shared, decide_false]
    refine ⟨fun unsaved => same.trans (holds.missing unsaved), fun state saved => ?_, snapshot⟩
    obtain ⟨old, file, decodes⟩ := holds.state state saved
    exact ⟨old, same.trans file, decodes⟩

theorem loadSnapshot (holds : Holds codec (.new filename) dir k) :
    ((new filename).call codec dir .loadSnapshot).2 = k.loadSnapshot := by
  have file := holds.snapshot
  simp only [FilePersister.call, Kept.loadSnapshot]
  cases stored : k.snapshot with
  | none =>
      rw [stored, Option.map_none] at file
      simp [FilePersister.loadSnapshot, file, ofLoadSnapshot]
  | some snapshot =>
      rw [stored, Option.map_some] at file
      rw [loadSnapshot_of_snapshotBytes file]
      rfl

theorem call (holds : Holds codec (.new filename) dir k) (other : filename ≠ "snapshot.bin")
    (c : PersisterCall) :
    ((new filename).call codec dir c).2 =
        (k.call (decide (filename = "snapshot.bin.tmp")) c).2 ∧
      Holds codec (.new filename) ((new filename).call codec dir c).1
        (k.call (decide (filename = "snapshot.bin.tmp")) c).1 := by
  cases c with
  | save currentTerm votedFor log => exact holds.save other _ currentTerm votedFor log
  | load => exact ⟨holds.load, holds⟩
  | saveSnapshot data index term => exact holds.saveSnapshot other data index term
  | loadSnapshot => exact ⟨holds.loadSnapshot, holds⟩

end Holds

end FilePersister

/-! ## Comparison -/

def PersisterCall.isSave : PersisterCall → Bool
  | .save _ _ _ => true
  | _ => false

/-- Among the calls so far, newest first, the last one that writes is `SaveSnapshot`,
and a `Save` comes before it. -/
def SnapshotOverState : List PersisterCall → Bool
  | [] => false
  | .save _ _ _ :: _ => false
  | .saveSnapshot _ _ _ :: past => past.any (·.isSave)
  | .load :: past => SnapshotOverState past
  | .loadSnapshot :: past => SnapshotOverState past

namespace Kept

/-- What is kept with and without the loss, after the calls so far. -/
structure Tied (past : List PersisterCall) (k lossy : Kept) : Prop where
  saved : k.state.isSome = past.any (·.isSave)
  lost : lossy.state = if SnapshotOverState past then none else k.state
  snapshot : lossy.snapshot = k.snapshot

theorem any_isSave_of_snapshotOverState {past : List PersisterCall}
    (lost : SnapshotOverState past = true) : past.any (·.isSave) = true := by
  induction past with
  | nil => cases lost
  | cons c past ih =>
      cases c with
      | save => rfl
      | saveSnapshot => exact lost
      | load => exact ih lost
      | loadSnapshot => exact ih lost

namespace Tied

variable {past : List PersisterCall} {k lossy : Kept}

theorem call (tied : Tied past k lossy) (c : PersisterCall) :
    Tied (c :: past) (k.call false c).1 (lossy.call true c).1 := by
  obtain ⟨saved, lost, snapshot⟩ := tied
  cases c with
  | save => exact ⟨rfl, rfl, snapshot⟩
  | load => exact ⟨saved, lost, snapshot⟩
  | loadSnapshot => exact ⟨saved, lost, snapshot⟩
  | saveSnapshot data index term =>
      refine ⟨saved, ?_, rfl⟩
      simp only [Kept.call, SnapshotOverState, ← saved]
      cases k.state <;> rfl

/-- Only a `Load` can tell. -/
theorem reply_eq_iff (tied : Tied past k lossy) (c : PersisterCall) :
    (k.call false c).2 = (lossy.call true c).2 ↔
      (c = .load → SnapshotOverState past = false) := by
  obtain ⟨saved, lost, snapshot⟩ := tied
  cases c with
  | save => simp [Kept.call]
  | saveSnapshot => simp [Kept.call]
  | loadSnapshot => simp [Kept.call, Kept.loadSnapshot, snapshot]
  | load =>
      simp only [Kept.call, Kept.load, lost, true_implies]
      cases lossful : SnapshotOverState past with
      | false => simp
      | true =>
          rw [any_isSave_of_snapshotOverState lossful] at saved
          obtain ⟨state, held⟩ := Option.isSome_iff_exists.mp saved
          simp [held]

/-- The two answer alike as long as no `Load` comes at the wrong time. -/
theorem outputs_eq_iff (tied : Tied past k lossy) (calls : List PersisterCall) :
    outputs (Kept.call false) k calls = outputs (Kept.call true) lossy calls ↔
      ∀ n, calls[n]? = some .load →
        SnapshotOverState ((calls.take n).reverse ++ past) = false := by
  induction calls generalizing past k lossy with
  | nil => simp [outputs]
  | cons c rest ih =>
      have first : (∀ n, (c :: rest)[n]? = some .load →
            SnapshotOverState (((c :: rest).take n).reverse ++ past) = false) ↔
          (c = .load → SnapshotOverState past = false) ∧ ∀ n, rest[n]? = some .load →
            SnapshotOverState ((rest.take n).reverse ++ c :: past) = false := by
        rw [← Nat.and_forall_add_one]
        simp
      rw [first, outputs, outputs, List.cons.injEq, tied.reply_eq_iff c, ih (tied.call c)]

end Tied

end Kept

/-- The two persisters return the same values and fail on the same calls, for every
sequence of calls on a new memory persister and an empty directory, if and only if
the state file does not have the name of the snapshot's temporary file, or no `Load`
comes when the last write was a `SaveSnapshot` with a `Save` before it. -/
theorem persisters_agree_iff (codec : Codec) {filename : String}
    (other : filename ≠ "snapshot.bin") (calls : List PersisterCall) :
    outputs MemoryPersister.call {} calls =
        outputs ((FilePersister.new filename).call codec) (fun _ => none) calls ↔
      filename ≠ "snapshot.bin.tmp" ∨
        ∀ n, calls[n]? = some .load → SnapshotOverState (calls.take n).reverse = false := by
  have memory : outputs MemoryPersister.call {} calls = outputs (Kept.call false) {} calls :=
    outputs_eq_of_related MemoryPersister.Holds (fun _ _ c holds => holds.call c)
      MemoryPersister.Holds.initial calls
  have files : outputs ((FilePersister.new filename).call codec) (fun _ => none) calls =
      outputs (Kept.call (decide (filename = "snapshot.bin.tmp"))) {} calls :=
    outputs_eq_of_related (FilePersister.Holds codec (.new filename))
      (fun _ _ c holds => holds.call other c) (FilePersister.Holds.initial codec filename) calls
  rw [memory, files]
  by_cases shared : filename = "snapshot.bin.tmp"
  · have tied : Kept.Tied [] {} {} := ⟨rfl, rfl, rfl⟩
    simpa [shared] using tied.outputs_eq_iff calls
  · simp [shared]

/-! ### A state file with an unlucky name -/

namespace PersistentState

/-- The numbers that a state consists of. -/
def numbers (state : PersistentState) : Int × Int × List (Int × Int × List Nat) :=
  (state.currentTerm.toInt, state.votedFor.toInt, state.log.map fun entry =>
    (entry.index.toInt, entry.term.toInt, entry.command.toList.map Char.toNat))

def ofNumbers (numbers : Int × Int × List (Int × Int × List Nat)) : PersistentState where
  currentTerm := .ofInt numbers.1
  votedFor := .ofInt numbers.2.1
  log := numbers.2.2.map fun entry =>
    ⟨.ofInt entry.1, .ofInt entry.2.1, .ofList (entry.2.2.map Char.ofNat)⟩

theorem ofNumbers_numbers (state : PersistentState) : ofNumbers state.numbers = state := by
  obtain ⟨currentTerm, votedFor, log⟩ := state
  simp [ofNumbers, numbers, Function.comp_def]

end PersistentState

/-- A codec that writes numbers in place of JSON and characters in place of base64. -/
def numberCodec : Codec where
  marshalIndent state := .ok (putNumber (Encodable.encode state.numbers))
  unmarshal data :=
    match Encodable.decode (littleEndian data) with
    | none => .error "unexpected end of JSON input"
    | some numbers => .ok (.ofNumbers numbers)
  encodeToString command := .ofList (command.map fun byte => Char.ofNat byte.toNat)
  decodeString text := .ok (text.toList.map fun char => UInt8.ofNat char.toNat)
  json_roundTrip state := by
    refine ⟨_, rfl, ?_⟩
    rw [littleEndian_putNumber, Encodable.encodek]
    exact congrArg Except.ok state.ofNumbers_numbers
  base64_roundTrip command := by
    have chars : ∀ n < 256, (Char.ofNat n).toNat = n := by decide +kernel
    have bytes : ∀ byte : UInt8, UInt8.ofNat (Char.ofNat byte.toNat).toNat = byte := by
      intro byte
      rw [chars _ byte.toNat_lt, UInt8.ofNat_toNat]
    simp [Function.comp_def, bytes]

/-- A state, a snapshot, and the state again. -/
def storeBoth : List PersisterCall :=
  [.load, .save 1 (-1) [⟨1, 1, [7]⟩], .saveSnapshot [9] 1 1, .load, .loadSnapshot]

/-- With the usual file name the two agree on these calls. -/
theorem persisters_agree_usual :
    outputs MemoryPersister.call {} storeBoth =
        outputs ((FilePersister.new "raft-state.json").call numberCodec) (fun _ => none) storeBoth ∧
      outputs MemoryPersister.call {} storeBoth =
        [.failed, .stored, .stored, .state 1 (-1) [⟨1, 1, [7]⟩], .snapshot [9] 1 1] :=
  ⟨(persisters_agree_iff numberCodec (by decide) storeBoth).mpr (.inl (by decide)), by decide⟩

/-- `SaveSnapshot` writes its temporary file over the state and moves it away. -/
theorem snapshot_clobbers_state :
    outputs MemoryPersister.call {} storeBoth =
        [.failed, .stored, .stored, .state 1 (-1) [⟨1, 1, [7]⟩], .snapshot [9] 1 1] ∧
      outputs ((FilePersister.new "snapshot.bin.tmp").call numberCodec) (fun _ => none) storeBoth =
        [.failed, .stored, .stored, .failed, .snapshot [9] 1 1] := by
  refine ⟨by decide, ?_⟩
  decide +kernel

end DistribKV
