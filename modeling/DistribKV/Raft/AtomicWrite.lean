import DistribKV.Storage.Crash
import DistribKV.Raft.Persisters

/-!
# Atomic writes

`atomicWrite` of `raft/persister.go`, call by call of the operating system: any of the
calls can fail, and the process can crash between any two of them or while the temporary
file is being written.  A rename happens as a whole or not at all.
-/

namespace DistribKV

open Storage

/-- What the calls of the operating system return, `none` for success. -/
structure Syscalls where
  mkdirAll : Option String := none
  /-- Opening the file in `os.WriteFile`, which truncates it. -/
  create : Option String := none
  /-- Writing the data there, of which a part is written before an error. -/
  write : Option (Nat × String) := none
  /-- Closing the file there. -/
  closeWritten : Option String := none
  reopen : Option String := none
  sync : Option String := none
  close : Option String := none
  rename : Option String := none
  remove : Option String := none

namespace Syscalls

/-- `os.WriteFile`. -/
def writeFile (os : Syscalls) (name : String) (data : Bytes) :
    Program Directory (Option String) :=
  match os.create with
  | some err => pure (some err)
  | none => do
      Program.modify (·.write name [])
      match os.write with
      | some (part, err) =>
          Directory.appendAll name (data.take part)
          pure (some err)
      | none =>
          Directory.appendAll name data
          pure os.closeWritten

/-- `os.Remove`, whose error is ignored. -/
def removeFile (os : Syscalls) (name : String) : Program Directory Unit :=
  match os.remove with
  | some _ => pure ()
  | none => Program.modify (·.remove name)

/-- Write to `<target>.tmp`, sync and rename; the value is the error. -/
def atomicWrite (os : Syscalls) (target : String) (data : Bytes) :
    Program Directory (Option String) :=
  let tempFile := target ++ ".tmp"
  match os.mkdirAll with
  | some err => pure (some ("create parent dir: " ++ err))
  | none => do
      match ← os.writeFile tempFile data with
      | some err => pure (some ("write temp file: " ++ err))
      | none =>
          match os.reopen with
          | some err =>
              os.removeFile tempFile
              pure (some ("open temp file for fsync: " ++ err))
          | none =>
              match os.sync with
              | some err =>
                  os.removeFile tempFile
                  pure (some ("fsync temp file: " ++ err))
              | none =>
                  match os.close with
                  | some err =>
                      os.removeFile tempFile
                      pure (some ("close temp file: " ++ err))
                  | none =>
                      match os.rename with
                      | some err =>
                          os.removeFile tempFile
                          pure (some ("rename temp file: " ++ err))
                      | none =>
                          Program.modify (·.rename tempFile target)
                          pure none

/-! ## What a write comes to -/

/-- The first call that fails. -/
inductive Failure where
  | mkdirAll
  | create
  | write (part : Nat)
  | closeWritten
  | reopen
  | sync
  | close
  | rename
  deriving DecidableEq, Repr

/-- Where the write fails, and the error of the call. -/
def failure (os : Syscalls) : Option (Failure × String) :=
  os.mkdirAll.map (Failure.mkdirAll, ·) <|> os.create.map (Failure.create, ·) <|>
    os.write.map (fun (part, err) => (Failure.write part, err)) <|>
    os.closeWritten.map (Failure.closeWritten, ·) <|> os.reopen.map (Failure.reopen, ·) <|>
    os.sync.map (Failure.sync, ·) <|> os.close.map (Failure.close, ·) <|>
    os.rename.map (Failure.rename, ·)

/-- The error that is returned for a failure. -/
def Failure.message : Failure → String → String
  | .mkdirAll, err => "create parent dir: " ++ err
  | .create, err | .write _, err | .closeWritten, err => "write temp file: " ++ err
  | .reopen, err => "open temp file for fsync: " ++ err
  | .sync, err => "fsync temp file: " ++ err
  | .close, err => "close temp file: " ++ err
  | .rename, err => "rename temp file: " ++ err

/-- The files after removing the temporary file, as far as that works. -/
def removed (os : Syscalls) (dir : Directory) (tempFile : String) (data : Bytes) : Directory :=
  match os.remove with
  | some _ => dir.write tempFile data
  | none => dir.remove tempFile

/-- The files when the write returns. -/
def outcome (os : Syscalls) (dir : Directory) (target : String) (data : Bytes) : Directory :=
  match os.failure.map Prod.fst with
  | none => FilePersister.atomicWrite dir target data
  | some .mkdirAll | some .create => dir
  | some (.write part) => dir.write (target ++ ".tmp") (data.take part)
  | some .closeWritten => dir.write (target ++ ".tmp") data
  | some .reopen | some .sync | some .close | some .rename =>
      os.removed dir (target ++ ".tmp") data

variable (os : Syscalls) (dir : Directory) (target name : String) (data : Bytes)

theorem removeFile_triple (err : String) :
    Program.Triple (· = dir.write name data)
      (do os.removeFile name; pure (some err))
      (fun result s => result = some err ∧ s = os.removed dir name data)
      (Directory.AgreeOff name dir) := by
  have removes : Program.Triple (· = dir.write name data) (os.removeFile name)
      (fun _ s => s = os.removed dir name data) (Directory.AgreeOff name dir) := by
    unfold removeFile removed
    cases os.remove with
    | some _ => exact .pure fun s here => here
    | none =>
        apply Program.Triple.modify
        rintro _ rfl
        exact ⟨.write name dir data, dir.write_remove name data⟩
  exact removes.bind fun _ => .pure fun s here => ⟨rfl, here⟩

/-- What `os.WriteFile` returns and leaves. -/
def written : Option String × Directory :=
  match os.create, os.write with
  | some err, _ => (some err, dir)
  | none, some (part, err) => (some err, dir.write name (data.take part))
  | none, none => (os.closeWritten, dir.write name data)

theorem writeFile_triple :
    Program.Triple (· = dir) (os.writeFile name data)
      (fun result s => result = (os.written dir name data).1 ∧ s = (os.written dir name data).2)
      (Directory.AgreeOff name dir) := by
  unfold writeFile written
  cases os.create with
  | some err => exact .pure fun s here => ⟨rfl, here⟩
  | none =>
      have truncates : Program.Triple (· = dir) (Program.modify (·.write name []))
          (fun _ s => s = dir.write name []) (Directory.AgreeOff name dir) := by
        apply Program.Triple.modify
        rintro _ rfl
        exact ⟨.refl name _, rfl⟩
      refine truncates.bind fun _ => ?_
      cases os.write with
      | some failed =>
          refine (dir.appendAll_triple name [] (data.take failed.1)).bind fun _ => ?_
          exact .pure fun s here => ⟨rfl, here⟩
      | none =>
          refine (dir.appendAll_triple name [] data).bind fun _ => ?_
          exact .pure fun s here => ⟨rfl, here⟩

theorem renames_triple :
    Program.Triple (· = dir.write (target ++ ".tmp") data)
      (do Program.modify (·.rename (target ++ ".tmp") target); pure (none : Option String))
      (fun result s => result = none ∧ s = FilePersister.atomicWrite dir target data)
      (Directory.AgreeOff (target ++ ".tmp") dir) := by
  have renames : Program.Triple (· = dir.write (target ++ ".tmp") data)
      (Program.modify (·.rename (target ++ ".tmp") target))
      (fun _ s => s = FilePersister.atomicWrite dir target data)
      (Directory.AgreeOff (target ++ ".tmp") dir) := by
    apply Program.Triple.modify
    rintro _ rfl
    exact ⟨.write _ dir data, rfl⟩
  exact renames.bind fun _ => .pure fun s here => ⟨rfl, here⟩

/-- Everything about a write: its error, the files when it returns, and that a crash finds
no file changed but the temporary one. -/
theorem atomicWrite_triple :
    Program.Triple (· = dir) (os.atomicWrite target data)
      (fun result s => result = os.failure.map (fun (failure, err) => failure.message err) ∧
        s = os.outcome dir target data)
      (Directory.AgreeOff (target ++ ".tmp") dir) := by
  unfold atomicWrite outcome failure
  cases os.mkdirAll with
  | some err => exact .pure fun s here => ⟨rfl, here⟩
  | none =>
      refine (os.writeFile_triple dir (target ++ ".tmp") data).bind fun result => .of_fact ?_
      rintro rfl
      unfold written
      cases os.create with
      | some err => exact .pure fun s here => ⟨rfl, here⟩
      | none =>
          cases os.write with
          | some failed => exact .pure fun s here => ⟨rfl, here⟩
          | none =>
              cases os.closeWritten with
              | some err => exact .pure fun s here => ⟨rfl, here⟩
              | none =>
                  cases os.reopen with
                  | some err => exact os.removeFile_triple dir _ data _
                  | none =>
                      cases os.sync with
                      | some err => exact os.removeFile_triple dir _ data _
                      | none =>
                          cases os.close with
                          | some err => exact os.removeFile_triple dir _ data _
                          | none =>
                              cases os.rename with
                              | some err => exact os.removeFile_triple dir _ data _
                              | none => exact renames_triple dir target data

/-! ## All or nothing -/

/-- Whatever a crash finds in the file is its old contents or the data, the data when no
error is returned; after an error the file is as before and there is no temporary file. -/
structure AllOrNothing (e : Execution Directory (Option String)) : Prop where
  cut : ∀ seen ∈ e.cuts, seen target = dir target ∨ seen target = some data
  returned : e.value = none → e.last target = some data
  failed : ∀ err, e.value = some err →
    e.last target = dir target ∧ e.last (target ++ ".tmp") = none

/-- The failures after which no temporary file is left: before it is created, if none is
there from before, and when it is complete, if it can be removed. -/
def CleansUp (os : Syscalls) (dir : Directory) (target : String) : Prop :=
  match os.failure.map Prod.fst with
  | none => True
  | some .mkdirAll | some .create => dir (target ++ ".tmp") = none
  | some (.write _) | some .closeWritten => False
  | some .reopen | some .sync | some .close | some .rename => os.remove = none

theorem removed_eq :
    os.removed dir name data name = none ↔ os.remove = none := by
  unfold removed
  cases os.remove with
  | none => simp [Directory.remove]
  | some err => simp [Directory.write]

/-- Only a write without an error changes the file. -/
theorem outcome_target :
    os.outcome dir target data target =
      if os.failure = none then some data else dir target := by
  have other : target ≠ target ++ ".tmp" := (FilePersister.append_tmp_ne target).symm
  have spared : os.removed dir (target ++ ".tmp") data target = dir target := by
    unfold removed
    cases os.remove with
    | none => exact Directory.AgreeOff.remove _ dir _ other
    | some err => exact Directory.AgreeOff.write _ dir data _ other
  unfold outcome
  cases os.failure with
  | none => exact dir.replace_target data other
  | some failed =>
      obtain ⟨stage, err⟩ := failed
      rw [if_neg (Option.some_ne_none _), Option.map_some]
      cases stage with
      | mkdirAll => rfl
      | create => rfl
      | write part => exact Directory.AgreeOff.write _ dir _ _ other
      | closeWritten => exact Directory.AgreeOff.write _ dir data _ other
      | reopen => exact spared
      | sync => exact spared
      | close => exact spared
      | rename => exact spared

theorem outcome_temp (failed : os.failure ≠ none) :
    os.outcome dir target data (target ++ ".tmp") = none ↔ os.CleansUp dir target := by
  unfold outcome CleansUp
  cases failure : os.failure with
  | none => exact absurd failure failed
  | some failed =>
      obtain ⟨stage, err⟩ := failed
      rw [Option.map_some]
      cases stage with
      | mkdirAll => rfl
      | create => rfl
      | write part => simp [Directory.write]
      | closeWritten => simp [Directory.write]
      | reopen => exact os.removed_eq dir _ data
      | sync => exact os.removed_eq dir _ data
      | close => exact os.removed_eq dir _ data
      | rename => exact os.removed_eq dir _ data

/-- At every point the file has its old contents or the data. -/
theorem atomicWrite_cuts :
    ∀ seen ∈ (os.atomicWrite target data dir).cuts,
      seen target = dir target ∨ seen target = some data := by
  have other : target ≠ target ++ ".tmp" := (FilePersister.append_tmp_ne target).symm
  obtain ⟨spared, -, last⟩ := os.atomicWrite_triple dir target data dir rfl
  intro seen mem
  rcases List.mem_append.mp mem with early | late
  · exact .inl (spared seen early target other)
  · rw [List.mem_singleton.mp late, last, outcome_target]
    split
    · exact .inr rfl
    · exact .inl rfl

/-- `atomicWrite` is all or nothing, for every directory, file, data and failing call and
at every point of a crash, if and only if the failure is none that leaves a temporary
file. -/
theorem atomicWrite_allOrNothing_iff :
    AllOrNothing dir target data (os.atomicWrite target data dir) ↔
      os.CleansUp dir target := by
  obtain ⟨-, value, last⟩ := os.atomicWrite_triple dir target data dir rfl
  have atTarget := os.outcome_target dir target data
  rw [← last] at atTarget
  constructor
  · intro allOrNothing
    cases failure : os.failure with
    | none => simp [CleansUp, failure]
    | some failed =>
        rw [failure] at value
        obtain ⟨-, gone⟩ := allOrNothing.failed _ value
        rw [last] at gone
        exact (os.outcome_temp dir target data (by simp [failure])).mp gone
  · intro cleansUp
    constructor
    · exact os.atomicWrite_cuts dir target data
    · intro success
      rw [value, Option.map_eq_none_iff] at success
      rw [atTarget, if_pos success]
    · intro err error
      have failed : os.failure ≠ none := by
        intro none
        rw [value, none] at error
        cases error
      rw [atTarget, if_neg failed, last]
      exact ⟨rfl, (os.outcome_temp dir target data failed).mpr cleansUp⟩

/-- The disk is full after two bytes: the write fails and leaves them behind. -/
theorem atomicWrite_leaves_part :
    let e := atomicWrite { write := some (2, "no space left on device") } "snapshot.bin" [1, 2, 3]
      fun _ => none
    e.value = some "write temp file: no space left on device" ∧
      e.last "snapshot.bin.tmp" = some [1, 2] := by
  decide

end Syscalls

end DistribKV
