import DistribKV.Consensus.Runs
import DistribKV.Raft.AtomicWrite

/-!
# What a node finds on its disk

A data directory over the lives of its processes.  `Save` and `SaveSnapshot` of
`FilePersister` run call by call of the operating system; a call returns, with an
error or without one, or the process crashes at some point of it and another process
goes on with the files that are left, the temporary ones included.

The two files always read as one of the states of a persister that stores all or
nothing: a write that returned is there, a write that failed is not, and a write that
a crash cut off is there as a whole or not at all.  For numbers that a Go `int` holds,
that persister is the `Persister` of the node's model.
-/

namespace DistribKV

open Consensus Storage

/-- A call that stores. -/
inductive PersisterWrite where
  | save (currentTerm votedFor : Int64) (log : List RawEntry)
  | saveSnapshot (data : Bytes) (lastIncludedIndex lastIncludedTerm : Int64)
  deriving DecidableEq

def PersisterWrite.call : PersisterWrite → PersisterCall
  | .save currentTerm votedFor log => .save currentTerm votedFor log
  | .saveSnapshot data index term => .saveSnapshot data index term

namespace FilePersister

variable (codec : Codec) (p : FilePersister)

/-- The file that a call writes. -/
def target : PersisterWrite → String
  | .save _ _ _ => p.filename
  | .saveSnapshot _ _ _ => p.snapshotFile

/-- What a call writes there. -/
def encode : PersisterWrite → Except String Bytes
  | .save currentTerm votedFor log =>
      codec.marshalIndent { currentTerm, votedFor, log := log.map (persistentEntry codec) }
  | .saveSnapshot data index term => .ok (snapshotBytes data index term)

/-- `Save` and `SaveSnapshot`, call by call of the operating system. -/
def write (os : Syscalls) (w : PersisterWrite) : Program Directory (Option String) :=
  match encode codec w with
  | .error err => pure (some ("encode state: " ++ err))
  | .ok data => os.atomicWrite (p.target w) data

end FilePersister

/-! ## Lives of a directory -/

/-- How an attempt to store ended. -/
inductive Ending where
  | returned (err : Option String)
  | crashed
  deriving DecidableEq

structure Attempt where
  write : PersisterWrite
  ending : Ending
  deriving DecidableEq

/-- A data directory and the attempts to store in it, the last one first. -/
structure Volume where
  dir : Directory := fun _ => none
  attempts : List Attempt := []

inductive VolumeAction where
  | write (os : Syscalls) (w : PersisterWrite)
  /-- The process crashes in the call, after so many steps of it. -/
  | crash (os : Syscalls) (w : PersisterWrite) (point : Nat)

namespace Volume

def step (codec : Codec) (p : FilePersister) (v : Volume) : VolumeAction → Option Volume
  | .write os w =>
      let e := p.write codec os w v.dir
      some { dir := e.last, attempts := ⟨w, .returned e.value⟩ :: v.attempts }
  | .crash os w point =>
      match (p.write codec os w v.dir).cuts[point]? with
      | none => none
      | some dir => some { dir, attempts := ⟨w, .crashed⟩ :: v.attempts }

end Volume

/-- What a persister that stores all or nothing keeps after the attempts. -/
inductive Accounts : List Attempt → Kept → Prop where
  | new : Accounts [] {}
  | stored {past : List Attempt} {k : Kept} {w : PersisterWrite} (before : Accounts past k) :
      Accounts (⟨w, .returned none⟩ :: past) (k.call false w.call).1
  | failed {past : List Attempt} {k : Kept} {w : PersisterWrite} {err : String}
      (before : Accounts past k) : Accounts (⟨w, .returned (some err)⟩ :: past) k
  | lost {past : List Attempt} {k : Kept} {w : PersisterWrite} (before : Accounts past k) :
      Accounts (⟨w, .crashed⟩ :: past) k
  | kept {past : List Attempt} {k : Kept} {w : PersisterWrite} (before : Accounts past k) :
      Accounts (⟨w, .crashed⟩ :: past) (k.call false w.call).1

/-! ## One write -/

/-- A write touches the file and its temporary file, and no other. -/
theorem Syscalls.atomicWrite_spares (os : Syscalls) (dir : Directory) {target name : String}
    (data : Bytes) (notTarget : name ≠ target) (notTemp : name ≠ target ++ ".tmp") :
    ∀ seen ∈ (os.atomicWrite target data dir).cuts, seen name = dir name := by
  obtain ⟨spared, -, last⟩ := os.atomicWrite_triple dir target data dir rfl
  have removed : os.removed dir (target ++ ".tmp") data name = dir name := by
    unfold removed
    cases os.remove with
    | none => exact Directory.AgreeOff.remove _ dir _ notTemp
    | some err => exact Directory.AgreeOff.write _ dir data _ notTemp
  intro seen member
  rcases List.mem_append.mp member with early | late
  · exact spared seen early name notTemp
  rw [List.mem_singleton.mp late, last]
  unfold outcome
  cases os.failure with
  | none => exact dir.replace_other data notTemp notTarget
  | some failed =>
      obtain ⟨stage, err⟩ := failed
      rw [Option.map_some]
      cases stage with
      | mkdirAll => rfl
      | create => rfl
      | write part => exact Directory.AgreeOff.write _ dir _ _ notTemp
      | closeWritten => exact Directory.AgreeOff.write _ dir data _ notTemp
      | reopen => exact removed
      | sync => exact removed
      | close => exact removed
      | rename => exact removed

namespace FilePersister

variable {codec : Codec} {dir seen : Directory} {k : Kept} {filename : String}

/-- A name for the state file that no other file has. -/
structure OwnName (filename : String) : Prop where
  notSnapshot : filename ≠ "snapshot.bin"
  notTemp : filename ≠ "snapshot.bin.tmp"

/-- Directories with the same two files hold the same. -/
theorem Holds.of_files (holds : Holds codec (.new filename) dir k)
    (state : seen filename = dir filename)
    (snapshot : seen "snapshot.bin" = dir "snapshot.bin") :
    Holds codec (.new filename) seen k where
  missing unsaved := state.trans (holds.missing unsaved)
  state kept saved := by
    obtain ⟨data, file, decodes⟩ := holds.state kept saved
    exact ⟨data, state.trans file, decodes⟩
  snapshot := snapshot.trans holds.snapshot

/-- A directory that has the data of a write in its file, and the other file as before,
holds what is kept after the write. -/
theorem Holds.stored (holds : Holds codec (.new filename) dir k) (own : OwnName filename)
    (w : PersisterWrite) :
    ∃ data, encode codec w = .ok data ∧ ∀ {seen : Directory},
      seen ((new filename).target w) = some data →
      (∀ name ∈ [filename, "snapshot.bin"], name ≠ (new filename).target w →
        seen name = dir name) →
      Holds codec (.new filename) seen (k.call false w.call).1 := by
  cases w with
  | save currentTerm votedFor log =>
      obtain ⟨data, encoded, decodes⟩ := codec.json_roundTrip
        ⟨currentTerm, votedFor, log.map (persistentEntry codec)⟩
      refine ⟨data, encoded, fun file spared => ⟨fun unsaved => ?_, ?_, ?_⟩⟩
      · cases unsaved
      · rintro state ⟨⟩
        exact ⟨data, file, decodes⟩
      · exact (spared "snapshot.bin" (by simp) own.notSnapshot.symm).trans holds.snapshot
  | saveSnapshot data index term =>
      refine ⟨snapshotBytes data index term, rfl, fun file spared => ?_⟩
      have same := spared filename (by simp) own.notSnapshot
      refine ⟨fun unsaved => same.trans (holds.missing unsaved), fun state saved => ?_, file⟩
      obtain ⟨old, stored, decodes⟩ := holds.state state saved
      exact ⟨old, same.trans stored, decodes⟩

/-- At every point of a write the directory holds what it held, or that with the write
done; without an error it is done in the end, and after an error it is not. -/
theorem Holds.write (holds : Holds codec (.new filename) dir k) (own : OwnName filename)
    (os : Syscalls) (w : PersisterWrite) :
    (∀ seen ∈ ((new filename).write codec os w dir).cuts,
      Holds codec (.new filename) seen k ∨
        Holds codec (.new filename) seen (k.call false w.call).1) ∧
      (((new filename).write codec os w dir).value = none →
        Holds codec (.new filename) ((new filename).write codec os w dir).last
          (k.call false w.call).1) ∧
      ∀ err, ((new filename).write codec os w dir).value = some err →
        Holds codec (.new filename) ((new filename).write codec os w dir).last k := by
  obtain ⟨data, encoded, stored⟩ := holds.stored own w
  have program : (new filename).write codec os w =
      os.atomicWrite ((new filename).target w) data := by
    rw [FilePersister.write, encoded]
  rw [program]
  -- the other one of the two files is not touched
  have spared : ∀ seen ∈ (os.atomicWrite ((new filename).target w) data dir).cuts,
      ∀ name ∈ [filename, "snapshot.bin"], name ≠ (new filename).target w →
        seen name = dir name := by
    intro seen member name isFile notTarget
    refine os.atomicWrite_spares dir data notTarget ?_ seen member
    simp only [List.mem_cons, List.not_mem_nil, or_false] at isFile
    cases w with
    | save => exact isFile.resolve_left notTarget ▸ (append_tmp_ne_snapshot filename).symm
    | saveSnapshot => exact isFile.resolve_right notTarget ▸ own.notTemp
  have kept : ∀ seen ∈ (os.atomicWrite ((new filename).target w) data dir).cuts,
      seen ((new filename).target w) = dir ((new filename).target w) →
      Holds codec (.new filename) seen k := by
    intro seen member old
    have same : ∀ name ∈ [filename, "snapshot.bin"], seen name = dir name := by
      intro name isFile
      by_cases isTarget : name = (new filename).target w
      · rw [isTarget, old]
      · exact spared seen member name isFile isTarget
    exact holds.of_files (same filename (by simp)) (same "snapshot.bin" (by simp))
  have last : (os.atomicWrite ((new filename).target w) data dir).last ∈
      (os.atomicWrite ((new filename).target w) data dir).cuts :=
    List.mem_append_right _ (List.mem_singleton_self _)
  obtain ⟨-, value, result⟩ :=
    os.atomicWrite_triple dir ((new filename).target w) data dir rfl
  have file := os.outcome_target dir ((new filename).target w) data
  rw [← result] at file
  refine ⟨fun seen member => ?_, fun success => ?_, fun err error => ?_⟩
  · rcases os.atomicWrite_cuts dir _ data seen member with old | new
    · exact .inl (kept seen member old)
    · exact .inr (stored new (spared seen member))
  · rw [value, Option.map_eq_none_iff] at success
    exact stored (by rw [file, if_pos success]) (spared _ last)
  · have failed : os.failure ≠ none := by
      intro success
      rw [value, success] at error
      cases error
    exact kept _ last (by rw [file, if_neg failed])

end FilePersister

/-! ## Every life -/

namespace Volume

open FilePersister PersisterReply

variable {codec : Codec} {filename : String} {v v' : Volume} {a : VolumeAction}

/-- The directory holds what its attempts account for. -/
def Sound (codec : Codec) (filename : String) (v : Volume) : Prop :=
  ∃ k, Accounts v.attempts k ∧ Holds codec (.new filename) v.dir k

theorem Sound.step (sound : Sound codec filename v) (own : OwnName filename)
    (stepped : v.step codec (.new filename) a = some v') : Sound codec filename v' := by
  obtain ⟨k, accounts, holds⟩ := sound
  cases a with
  | write os w =>
      obtain ⟨-, done, undone⟩ := holds.write own os w
      cases stepped
      cases value : ((FilePersister.new filename).write codec os w v.dir).value with
      | none => exact ⟨_, .stored accounts, done value⟩
      | some err => exact ⟨k, .failed accounts, undone err value⟩
  | crash os w point =>
      obtain ⟨cuts, -⟩ := holds.write own os w
      simp only [Volume.step] at stepped
      split at stepped
      · cases stepped
      next dir found =>
        cases stepped
        rcases cuts dir (List.mem_of_getElem? found) with before | after
        · exact ⟨k, .lost accounts, before⟩
        · exact ⟨_, .kept accounts, after⟩

/-- The files of a node stand for a persister that stores all or nothing: after every
sequence of `Save` and `SaveSnapshot` calls in which any call of the operating system
may fail and the process may crash at any point and be started again, `Load` and
`LoadSnapshot` return what such a persister returns after the same calls with the same
endings.  Neither of them ever finds a damaged file. -/
theorem files_refine_kept (own : OwnName filename)
    (run : Run (step codec (.new filename)) (fun _ _ => True) {} v) :
    ∃ k, Accounts v.attempts k ∧
      ofLoad ((FilePersister.new filename).load codec v.dir) = k.load ∧
      ofLoadSnapshot ((FilePersister.new filename).loadSnapshot v.dir) = k.loadSnapshot := by
  have sound : Sound codec filename v := by
    apply run.invariant
    · exact ⟨{}, .new, .initial codec filename⟩
    intro t u a sound _ stepped
    exact Sound.step sound own stepped
  obtain ⟨k, accounts, holds⟩ := sound
  exact ⟨k, accounts, holds.load, holds.loadSnapshot⟩

/-- A state is stored, a crash cuts off the next one when its temporary file is half
written, and a snapshot cannot be synced. -/
def troubledLives : List VolumeAction :=
  [.write {} (.save 1 0 [⟨1, 1, [7]⟩]), .crash {} (.save 2 0 []) 2,
    .write { sync := some "input/output error" } (.saveSnapshot [9] 1 1)]

/-- The state that was stored first is the one that is found. -/
theorem files_refine_kept_troubledLives :
    ∃ v : Volume,
      Run (step numberCodec (.new "raft-state.json")) (fun _ _ => True) {} v ∧
      v.attempts = [⟨.saveSnapshot [9] 1 1, .returned (some "fsync temp file: input/output error")⟩,
        ⟨.save 2 0 [], .crashed⟩, ⟨.save 1 0 [⟨1, 1, [7]⟩], .returned none⟩] ∧
      (v.dir "raft-state.json.tmp").isSome ∧
      ∃ k, Accounts v.attempts k ∧
        ofLoad ((FilePersister.new "raft-state.json").load numberCodec v.dir) = k.load ∧
        ofLoadSnapshot ((FilePersister.new "raft-state.json").loadSnapshot v.dir) =
          k.loadSnapshot := by
  have reached : ∃ v : Volume,
      Run (step numberCodec (.new "raft-state.json")) (fun _ _ => True) {} v ∧
      v.attempts = [⟨.saveSnapshot [9] 1 1, .returned (some "fsync temp file: input/output error")⟩,
        ⟨.save 2 0 [], .crashed⟩, ⟨.save 1 0 [⟨1, 1, [7]⟩], .returned none⟩] ∧
      (v.dir "raft-state.json.tmp").isSome :=
    exists_run_of_perform troubledLives _ (by decide +kernel)
  obtain ⟨v, run, attempts, left⟩ := reached
  exact ⟨v, run, attempts, left, files_refine_kept ⟨by decide, by decide⟩ run⟩

end Volume

/-! ## The persister of the node's model

The node's model counts in natural numbers, and its persister stores all or nothing.
As long as the numbers are values of Go's `int`, the files are such a persister. -/

/-- An entry of the node's log in machine integers. -/
def RawEntry.ofLogEntry (entry : LogEntry) : RawEntry where
  index := .ofNat entry.index
  term := .ofNat entry.term
  command := entry.command

def RawEntry.toLogEntry (entry : RawEntry) : LogEntry where
  index := entry.index.toInt.toNat
  term := entry.term.toInt.toNat
  command := entry.command

/-- A call that stores, in the numbers of the node's model. -/
inductive NodeWrite where
  | save (currentTerm : Nat) (votedFor : Int) (log : List LogEntry)
  | saveSnapshot (data : Bytes) (lastIncludedIndex lastIncludedTerm : Nat)

namespace NodeWrite

def raw : NodeWrite → PersisterWrite
  | .save currentTerm votedFor log =>
      .save (.ofNat currentTerm) (.ofInt votedFor) (log.map .ofLogEntry)
  | .saveSnapshot data index term => .saveSnapshot data (.ofNat index) (.ofNat term)

/-- Every number of the call is a value of Go's `int`. -/
def Fits : NodeWrite → Prop
  | .save currentTerm votedFor log =>
      currentTerm ≤ maxInt ∧ -maxInt ≤ votedFor ∧ votedFor ≤ maxInt ∧
        ∀ entry ∈ log, entry.index ≤ maxInt ∧ entry.term ≤ maxInt
  | .saveSnapshot _ index term => index ≤ maxInt ∧ term ≤ maxInt

end NodeWrite

def Persister.store (p : Persister) : NodeWrite → Persister
  | .save currentTerm votedFor log => p.save currentTerm votedFor log
  | .saveSnapshot data index term => p.saveSnapshot data index term

namespace PersisterReply

def hardState : PersisterReply → Option HardState
  | .state currentTerm votedFor log =>
      some ⟨currentTerm.toInt.toNat, votedFor.toInt, log.map (·.toLogEntry)⟩
  | _ => none

def snapshotFile : PersisterReply → Option SnapshotFile
  | .snapshot data index term => some ⟨data, index.toInt.toNat, term.toInt.toNat⟩
  | _ => none

end PersisterReply

/-- What is kept, in the numbers of the node's model. -/
def Kept.persister (k : Kept) : Persister where
  hardState := k.load.hardState
  snapshotFile := k.loadSnapshot.snapshotFile

theorem toNat_ofNat {n : Nat} (fits : n ≤ maxInt) : (Int64.ofNat n).toInt.toNat = n := by
  have below : n < 2 ^ 63 := Nat.lt_succ_of_le fits
  rw [Int64.toInt_ofNat_of_lt below, Int.toNat_natCast]

/-- Storing in machine integers is storing in the node's model. -/
theorem Kept.persister_call (k : Kept) {w : NodeWrite} (fits : w.Fits) :
    (k.call false w.raw.call).1.persister = k.persister.store w := by
  cases w with
  | save currentTerm votedFor log =>
      obtain ⟨term, low, high, entries⟩ := fits
      have vote : (Int64.ofInt votedFor).toInt = votedFor :=
        Int64.toInt_ofInt_of_le (by unfold maxInt at low; omega) (by unfold maxInt at high; omega)
      have same : log.map (RawEntry.toLogEntry ∘ RawEntry.ofLogEntry) = log := by
        refine (List.map_congr_left fun entry member => ?_).trans log.map_id
        obtain ⟨index, term⟩ := entries entry member
        simp only [Function.comp_apply, RawEntry.ofLogEntry, RawEntry.toLogEntry,
          toNat_ofNat index, toNat_ofNat term, id_eq]
      simp only [NodeWrite.raw, PersisterWrite.call, Kept.call, Kept.persister, Kept.load,
        PersisterReply.hardState, Kept.loadSnapshot, Persister.store, Persister.save,
        toNat_ofNat term, vote, List.map_map, same]
  | saveSnapshot data index term =>
      obtain ⟨index, term⟩ := fits
      simp only [NodeWrite.raw, PersisterWrite.call, Kept.call, Kept.persister, Kept.load,
        Kept.loadSnapshot, PersisterReply.snapshotFile, Persister.store, Persister.saveSnapshot,
        toNat_ofNat index, toNat_ofNat term, Bool.false_eq_true, if_false]

namespace FilePersister

variable {codec : Codec} {dir : Directory} {k : Kept} {filename : String}

/-- What `Load` and `LoadSnapshot` find, in the numbers of the node's model. -/
def found (codec : Codec) (p : FilePersister) (dir : Directory) : Persister where
  hardState := (PersisterReply.ofLoad (p.load codec dir)).hardState
  snapshotFile := (PersisterReply.ofLoadSnapshot (p.loadSnapshot dir)).snapshotFile

theorem Holds.found (holds : Holds codec (.new filename) dir k) :
    (new filename).found codec dir = k.persister := by
  rw [Kept.persister, ← holds.load, ← holds.loadSnapshot]
  rfl

end FilePersister

namespace Volume

open FilePersister

variable {codec : Codec} {filename : String} {v : Volume}

/-- The files of a node are the persister of its model: in every life of the directory,
a call that returns without an error stores what it is given, a call that fails stores
nothing, and a call that a crash cuts off stores all or nothing. -/
theorem Sound.found_write (sound : Sound codec filename v) (own : OwnName filename)
    {w : NodeWrite} (fits : w.Fits) (os : Syscalls) :
    let before := (FilePersister.new filename).found codec v.dir
    let e := (FilePersister.new filename).write codec os w.raw v.dir
    (∀ seen ∈ e.cuts, (FilePersister.new filename).found codec seen = before ∨
        (FilePersister.new filename).found codec seen = before.store w) ∧
      (FilePersister.new filename).found codec e.last =
        if e.value = none then before.store w else before := by
  intro before e
  obtain ⟨k, -, holds⟩ := sound
  obtain ⟨cuts, done, undone⟩ := holds.write own os w.raw
  have kept : before = k.persister := holds.found
  have stored : (k.call false w.raw.call).1.persister = before.store w :=
    kept ▸ k.persister_call fits
  refine ⟨fun seen member => ?_, ?_⟩
  · rcases cuts seen member with old | new
    · exact .inl (old.found.trans kept.symm)
    · exact .inr (new.found.trans stored)
  · cases value : e.value with
    | none => exact (done value).found.trans stored
    | some err => exact (undone err value).found.trans kept.symm

end Volume

end DistribKV
