import Mathlib.Data.Nat.Digits.Defs
import Mathlib.Logic.Function.Basic

/-!
# Byte formats and directories

Little-endian numbers of a fixed width, and a directory in which a file is written
under a temporary name and renamed into place.
-/

namespace Storage

/-! ## Little-endian numbers -/

/-- The lowest bytes of a number, the lowest first. -/
def putLittleEndian : Nat → Nat → List UInt8
  | 0, _ => []
  | width + 1, value => UInt8.ofNat value :: putLittleEndian width (value / 256)

/-- The number that bytes stand for, the lowest first. -/
def littleEndian (bytes : List UInt8) : Nat := Nat.ofDigits 256 (bytes.map UInt8.toNat)

@[simp] theorem length_putLittleEndian (width value : Nat) :
    (putLittleEndian width value).length = width := by
  induction width generalizing value with
  | zero => rfl
  | succ width ih => rw [putLittleEndian, List.length_cons, ih]

theorem littleEndian_putLittleEndian (width value : Nat) :
    littleEndian (putLittleEndian width value) = value % 256 ^ width := by
  induction width generalizing value with
  | zero => simp [putLittleEndian, littleEndian, Nat.mod_one]
  | succ width ih =>
      have rest := ih (value / 256)
      have split : value % 256 ^ (width + 1) =
          value % 256 + 256 * (value / 256 % 256 ^ width) := by
        rw [Nat.pow_succ', Nat.mod_mul]
      unfold littleEndian at rest ⊢
      rw [putLittleEndian, List.map_cons, Nat.ofDigits_cons, rest, UInt8.toNat_ofNat', split]

theorem littleEndian_cons (byte : UInt8) (bytes : List UInt8) :
    littleEndian (byte :: bytes) = byte.toNat + 256 * littleEndian bytes := rfl

theorem littleEndian_lt (bytes : List UInt8) : littleEndian bytes < 256 ^ bytes.length := by
  induction bytes with
  | nil => exact Nat.one_pos
  | cons byte bytes ih =>
      have small : byte.toNat < 256 := byte.toNat_lt
      rw [littleEndian_cons, List.length_cons, Nat.pow_succ]
      omega

/-- Bytes are the lowest bytes of the number that they stand for. -/
theorem putLittleEndian_littleEndian (bytes : List UInt8) :
    putLittleEndian bytes.length (littleEndian bytes) = bytes := by
  induction bytes with
  | nil => rfl
  | cons byte bytes ih =>
      have small : byte.toNat < 256 := byte.toNat_lt
      have first : UInt8.ofNat (byte.toNat + 256 * littleEndian bytes) = byte := by
        apply UInt8.toNat_inj.mp
        rw [UInt8.toNat_ofNat', Nat.add_mul_mod_self_left, Nat.mod_eq_of_lt small]
      have rest : (byte.toNat + 256 * littleEndian bytes) / 256 = littleEndian bytes := by
        omega
      rw [littleEndian_cons, List.length_cons, putLittleEndian, first, rest, ih]

/-- A 64-bit number in eight bytes. -/
def putUint64 (value : UInt64) : List UInt8 := putLittleEndian 8 value.toNat

def uint64 (bytes : List UInt8) : UInt64 := .ofNat (littleEndian bytes)

@[simp] theorem length_putUint64 (value : UInt64) : (putUint64 value).length = 8 :=
  length_putLittleEndian 8 value.toNat

@[simp] theorem uint64_putUint64 (value : UInt64) : uint64 (putUint64 value) = value := by
  have fits : value.toNat < 256 ^ 8 := value.toNat_lt
  rw [uint64, putUint64, littleEndian_putLittleEndian, Nat.mod_eq_of_lt fits, UInt64.ofNat_toNat]

theorem putUint64_uint64 {bytes : List UInt8} (eight : bytes.length = 8) :
    putUint64 (uint64 bytes) = bytes := by
  have fits : littleEndian bytes < 2 ^ 64 := by
    have bound := littleEndian_lt bytes
    rw [eight] at bound
    exact bound.trans_eq (by decide)
  have whole := putLittleEndian_littleEndian bytes
  rw [eight] at whole
  rw [putUint64, uint64, UInt64.toNat_ofNat', Nat.mod_eq_of_lt fits, whole]

/-- A number of any size, without leading zeros. -/
def putNumber (value : Nat) : List UInt8 := (Nat.digits 256 value).map UInt8.ofNat

@[simp] theorem littleEndian_putNumber (value : Nat) :
    littleEndian (putNumber value) = value := by
  have digits : ((Nat.digits 256 value).map UInt8.ofNat).map UInt8.toNat =
      Nat.digits 256 value := by
    rw [List.map_map]
    refine (List.map_congr_left fun digit member => ?_).trans (List.map_id _)
    exact UInt8.toNat_ofNat_of_lt (Nat.digits_lt_base (by decide) member)
  rw [littleEndian, putNumber, digits, Nat.ofDigits_digits]

/-! ## Slices -/

/-- Go's `bytes[low:high]`; `none` is a range that is out of bounds. -/
def slice (bytes : List UInt8) (low high : Nat) : Option (List UInt8) :=
  if low ≤ high ∧ high ≤ bytes.length then some ((bytes.drop low).take (high - low)) else none

/-- Go's `copy(bytes[low:high], source)`: as much as fits. -/
def copyInto (bytes : List UInt8) (low high : Nat) (source : List UInt8) :
    Option (List UInt8) :=
  (slice bytes low high).map fun window =>
    bytes.take low ++ source.take window.length ++
      bytes.drop (low + min source.length window.length)

theorem slice_eq {bytes : List UInt8} {low high : Nat} (ordered : low ≤ high)
    (within : high ≤ bytes.length) :
    slice bytes low high = some ((bytes.drop low).take (high - low)) :=
  if_pos ⟨ordered, within⟩

/-- Copying to the end of what a buffer of zeros is filled with. -/
theorem copyInto_filled {filled source : List UInt8} {room low high : Nat}
    (starts : filled.length = low) (enough : low + source.length ≤ high)
    (within : high ≤ low + room) :
    copyInto (filled ++ List.replicate room 0) low high source =
      some (filled ++ source ++ List.replicate (room - source.length) 0) := by
  subst starts
  have size : (filled ++ List.replicate room (0 : UInt8)).length = filled.length + room := by
    rw [List.length_append, List.length_replicate]
  have window : (((filled ++ List.replicate room (0 : UInt8)).drop filled.length).take
      (high - filled.length)).length = high - filled.length := by
    rw [List.length_take, List.length_drop, size, Nat.min_eq_left]
    omega
  have rest : (filled ++ List.replicate room (0 : UInt8)).drop (filled.length + source.length) =
      List.replicate (room - source.length) 0 := by
    rw [← List.drop_drop, List.drop_left, List.drop_replicate]
  have whole : source.take (high - filled.length) = source :=
    List.take_of_length_le (by omega)
  rw [copyInto, slice_eq (by omega) (size ▸ within), Option.map_some, window,
    Nat.min_eq_left (by omega), List.take_left, rest, whole]

/-! ## Directories -/

/-- The files of a directory by name. -/
abbrev Directory := String → Option (List UInt8)

namespace Directory

/-- Create a file, or replace its contents. -/
def write (dir : Directory) (name : String) (data : List UInt8) : Directory :=
  Function.update dir name (some data)

/-- Move a file, replacing the one that has the new name. -/
def rename (dir : Directory) (source target : String) : Directory :=
  Function.update (Function.update dir target (dir source)) source none

/-- Write under a temporary name, then move into place. -/
def replace (dir : Directory) (temp target : String) (data : List UInt8) : Directory :=
  (dir.write temp data).rename temp target

variable (dir : Directory) {temp target : String} (data : List UInt8)

theorem replace_target (distinct : target ≠ temp) :
    dir.replace temp target data target = some data := by
  simp [replace, write, rename, distinct]

theorem replace_temp : dir.replace temp target data temp = none := by
  simp [replace, rename]

theorem replace_other {name : String} (notTemp : name ≠ temp) (notTarget : name ≠ target) :
    dir.replace temp target data name = dir name := by
  simp [replace, write, rename, notTemp, notTarget]

end Directory

end Storage
