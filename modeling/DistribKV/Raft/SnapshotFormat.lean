import DistribKV.Raft.Persisters

/-!
# The format of the snapshot file

`SaveSnapshot` and `LoadSnapshot` of `raft/persister.go` on the level of buffers and
slices.  A slice out of range is a panic.  The format is compared with the bytes that the
file persister writes and accepts.
-/

namespace DistribKV.FilePersister

open Storage

/-- The buffer that `SaveSnapshot` fills; `data` is `none` for a nil slice. -/
def encodeSnapshot (data : Option Bytes) (lastIncludedIndex lastIncludedTerm : Int64) :
    Option Bytes := do
  let data := data.getD []
  let buf := List.replicate (snapshotHdrSz + data.length) 0
  let buf ← copyInto buf 0 buf.length snapshotMagic
  let buf ← copyInto buf 8 16 (putUint64 lastIncludedIndex.toUInt64)
  let buf ← copyInto buf 16 24 (putUint64 lastIncludedTerm.toUInt64)
  copyInto buf snapshotHdrSz buf.length data

/-- What `LoadSnapshot` makes of the bytes it has read. -/
def decodeSnapshot (raw : Bytes) : Option (Except String (Bytes × Int64 × Int64)) :=
  if raw.length < snapshotHdrSz then
    some (.error ("snapshot too short (" ++ toString raw.length ++ " bytes, need " ++
      toString snapshotHdrSz ++ ")"))
  else do
    let magic ← slice raw 0 8
    if magic ≠ snapshotMagic then
      some (.error "snapshot header corrupt (bad magic)")
    else
      let idx ← slice raw 8 16
      let term ← slice raw 16 24
      let data ← slice raw snapshotHdrSz raw.length
      some (.ok (data, (uint64 idx).toInt64, (uint64 term).toInt64))

/-- The buffer is large enough for everything that is copied into it. -/
theorem encodeSnapshot_eq (data : Option Bytes) (index term : Int64) :
    encodeSnapshot data index term = some (snapshotBytes (data.getD []) index term) := by
  unfold encodeSnapshot
  generalize data.getD [] = data
  have magic : snapshotMagic.length = 8 := rfl
  have size : snapshotHdrSz = 24 := rfl
  have indexBytes := length_putUint64 index.toUInt64
  have termBytes := length_putUint64 term.toUInt64
  have first : copyInto (List.replicate (snapshotHdrSz + data.length) 0) 0
      (snapshotHdrSz + data.length) snapshotMagic =
        some (snapshotMagic ++ List.replicate (snapshotHdrSz + data.length - 8) 0) :=
    copyInto_filled List.length_nil (by omega) (by omega)
  have second : copyInto (snapshotMagic ++ List.replicate (snapshotHdrSz + data.length - 8) 0)
      8 16 (putUint64 index.toUInt64) =
        some (snapshotMagic ++ putUint64 index.toUInt64 ++
          List.replicate (snapshotHdrSz + data.length - 8 - 8) 0) := by
    rw [copyInto_filled magic (by omega) (by omega), indexBytes]
  have third : copyInto (snapshotMagic ++ putUint64 index.toUInt64 ++
      List.replicate (snapshotHdrSz + data.length - 8 - 8) 0) 16 24 (putUint64 term.toUInt64) =
        some (snapshotMagic ++ putUint64 index.toUInt64 ++ putUint64 term.toUInt64 ++
          List.replicate data.length 0) := by
    have left : snapshotHdrSz + data.length - 8 - 8 - 8 = data.length := by omega
    rw [copyInto_filled (by simp [magic]) (by omega) (by omega), termBytes, left]
  have fourth : copyInto (snapshotMagic ++ putUint64 index.toUInt64 ++
      putUint64 term.toUInt64 ++ List.replicate data.length 0) snapshotHdrSz
        (snapshotHdrSz + data.length) data = some (snapshotBytes data index term) := by
    rw [copyInto_filled (by simp [magic, size]) (by omega) (by omega), Nat.sub_self,
      List.replicate_zero, List.append_nil]
    rfl
  have length : (snapshotMagic ++ putUint64 index.toUInt64 ++ putUint64 term.toUInt64 ++
      List.replicate data.length 0).length = snapshotHdrSz + data.length := by
    simp only [List.length_append, List.length_replicate, magic, indexBytes, termBytes, size]
  simp only [Option.bind_eq_bind, List.length_replicate, first, second, third, fourth, length,
    Option.bind_some]

/-- No slice is out of range, and the two levels agree. -/
theorem decodeSnapshot_eq (p : FilePersister) (dir : Directory) (raw : Bytes) :
    decodeSnapshot raw = some (p.loadSnapshot (dir.write p.snapshotFile raw)) := by
  have stored : dir.write p.snapshotFile raw p.snapshotFile = some raw :=
    Function.update_self _ _ _
  simp only [decodeSnapshot, loadSnapshot, stored]
  have size : snapshotHdrSz = 24 := rfl
  split
  next => rfl
  next long =>
    have payload : (raw.drop snapshotHdrSz).take (raw.length - snapshotHdrSz) =
        raw.drop snapshotHdrSz :=
      List.take_of_length_le (List.length_drop).le
    rw [slice_eq (by omega) (by omega), slice_eq (by omega) (by omega),
      slice_eq (by omega) (by omega), slice_eq (by omega) le_rfl, payload]
    simp only [Option.bind_eq_bind, Option.bind_some, List.drop_zero, Nat.sub_zero, Nat.reduceSub]
    split <;> rfl

/-- Bytes with the header are what is written for the parts that they are read as. -/
theorem eq_snapshotBytes {raw : Bytes} (long : snapshotHdrSz ≤ raw.length)
    (magic : raw.take 8 = snapshotMagic) :
    raw = snapshotBytes (raw.drop snapshotHdrSz) (uint64 ((raw.drop 8).take 8)).toInt64
      (uint64 ((raw.drop 16).take 8)).toInt64 := by
  have size : snapshotHdrSz = 24 := rfl
  have eight : ((raw.drop 8).take 8).length = 8 := by
    rw [List.length_take, List.length_drop]
    omega
  have eight' : ((raw.drop 16).take 8).length = 8 := by
    rw [List.length_take, List.length_drop]
    omega
  rw [snapshotBytes, ← magic, UInt64.toUInt64_toInt64, UInt64.toUInt64_toInt64,
    putUint64_uint64 eight, putUint64_uint64 eight']
  have third : (raw.drop 16).take 8 ++ raw.drop snapshotHdrSz = raw.drop 16 := by
    rw [size, ← List.drop_drop (i := 8) (j := 16), List.take_append_drop]
  have second : (raw.drop 8).take 8 ++ raw.drop 16 = raw.drop 8 := by
    rw [← List.drop_drop (i := 8) (j := 8), List.take_append_drop]
  rw [List.append_assoc, List.append_assoc, third, second, List.take_append_drop]

theorem loadSnapshot_eq_ok_iff {p : FilePersister} {dir : Directory} {raw : Bytes}
    (stored : dir p.snapshotFile = some raw) (data : Bytes) (index term : Int64) :
    p.loadSnapshot dir = .ok (data, index, term) ↔ raw = snapshotBytes data index term := by
  constructor
  · intro loaded
    simp only [loadSnapshot, stored] at loaded
    split at loaded
    case isTrue => cases loaded
    split at loaded
    case isTrue => cases loaded
    next long magic =>
      cases loaded
      exact eq_snapshotBytes (Nat.not_lt.mp long) (not_not.mp magic)
  · rintro rfl
    exact loadSnapshot_of_snapshotBytes stored

theorem saveSnapshot_file (p : FilePersister) (dir : Directory) (data : Bytes)
    (index term : Int64) :
    (p.saveSnapshot dir data index term).1 p.snapshotFile =
      some (snapshotBytes data index term) :=
  dir.replace_target _ (append_tmp_ne p.snapshotFile).symm

/-- The format is a bijection onto the valid files: for every persister and directory and
all bytes in the snapshot file, loading succeeds with a snapshot exactly when these are
the bytes that storing it writes.  Neither reads or writes out of range, a nil payload is
written as an empty one, and files that are too short or have a wrong magic are rejected. -/
theorem snapshot_file_bijection (p : FilePersister) (dir : Directory) (file : Bytes) :
    (∀ data index term,
        p.loadSnapshot (dir.write p.snapshotFile file) = .ok (data, index, term) ↔
          (p.saveSnapshot dir data index term).1 p.snapshotFile = some file) ∧
      decodeSnapshot file = some (p.loadSnapshot (dir.write p.snapshotFile file)) ∧
      (∀ data index term, encodeSnapshot data index term =
        (p.saveSnapshot dir (data.getD []) index term).1 p.snapshotFile) ∧
      (file.length < snapshotHdrSz ∨ file.take 8 ≠ snapshotMagic →
        ∃ err, p.loadSnapshot (dir.write p.snapshotFile file) = .error err) := by
  have stored : dir.write p.snapshotFile file p.snapshotFile = some file :=
    Function.update_self _ _ _
  refine ⟨?_, decodeSnapshot_eq p dir file, ?_, ?_⟩
  · intro data index term
    rw [loadSnapshot_eq_ok_iff stored, saveSnapshot_file, Option.some_inj, eq_comm]
  · intro data index term
    rw [encodeSnapshot_eq, saveSnapshot_file]
  · intro invalid
    simp only [loadSnapshot, stored]
    split
    case isTrue => exact ⟨_, rfl⟩
    next long => exact ⟨_, if_pos (invalid.resolve_left long)⟩

end DistribKV.FilePersister
