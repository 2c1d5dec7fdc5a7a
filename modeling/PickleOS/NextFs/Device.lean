import PickleOS.Shared.Bytes
import PickleOS.Shared.Outcome

set_option autoImplicit false

namespace PickleOS.NextFs

open Shared

abbrev blockSize : Nat := 512

inductive BlockError where
  | outOfRange
  | badBuffer
  | deviceError (message : String)
  | unsupported
  deriving DecidableEq

inductive FsError where
  | deviceNotFound
  | deviceTooSmall
  | unsupportedBlockSize
  | invalidMagic
  | invalidInode
  | noSpace
  | notFound
  | notDirectory
  | notFile
  | alreadyExists
  | nameTooLong
  | notMounted
  | invalidOperation
  | directoryNotEmpty
  | permissionDenied
  | blockError (error : BlockError)
  deriving DecidableEq

/-- Why a call does not return a value: an error value, or a panic (an index out of bounds). -/
inductive Fail where
  | fs (error : FsError)
  | panic
  deriving DecidableEq

structure Block where
  bytes : List UInt8
  length_eq : bytes.length = blockSize
  deriving DecidableEq

namespace Block

theorem ext {left right : Block} (same : left.bytes = right.bytes) : left = right := by
  cases left
  cases right
  simpa only [Block.mk.injEq] using same

def zero : Block := ⟨List.replicate blockSize 0, List.length_replicate⟩

def slice (block : Block) (off n : Nat) : List UInt8 := Bytes.slice block.bytes off n

/-- `buf[off..off + data.len()].copy_from_slice(data)`. -/
def splice (block : Block) (off : Nat) (data : List UInt8) : Block :=
  ⟨Bytes.splice block.bytes off data, by rw [Bytes.splice_length, block.length_eq]⟩

/-- A buffer of zeros with `data` copied to its start. -/
def ofBytes (data : List UInt8) : Block := zero.splice 0 data

/-- The `k`-th little-endian `u32` of an indirect block. -/
def pointer (block : Block) (k : Nat) : UInt32 :=
  UInt32.ofNat (Bytes.decode (block.slice (k * 4) 4))

def setPointer (block : Block) (k : Nat) (target : UInt32) : Block :=
  block.splice (k * 4) (Bytes.encode 4 target.toNat)

theorem slice_splice_same (block : Block) (off : Nat) (data : List UInt8)
    (room : off + data.length ≤ 512) : (block.splice off data).slice off data.length = data :=
  Bytes.slice_splice_same _ _ _ (by simpa only [block.length_eq] using room)

theorem slice_splice_disjoint (block : Block) (off n start : Nat) (data : List UInt8)
    (room : off + data.length ≤ 512) (disjoint : start + n ≤ off ∨ off + data.length ≤ start) :
    (block.splice off data).slice start n = block.slice start n :=
  Bytes.slice_splice_disjoint _ _ _ _ _ (by simpa only [block.length_eq] using room) disjoint

theorem slice_zero (off n : Nat) (room : off + n ≤ 512) :
    zero.slice off n = List.replicate n 0 := by
  simp only [slice, Bytes.slice, zero, List.drop_replicate, List.take_replicate, blockSize]
  congr 1
  omega

theorem pointer_setPointer (block : Block) (k j : Nat) (target : UInt32) (inside : k < 128) :
    (block.setPointer k target).pointer j = if j = k then target else block.pointer j := by
  have room : k * 4 + (Bytes.encode 4 target.toNat).length ≤ 512 := by simp; omega
  split
  next same =>
    subst same
    have whole := slice_splice_same block (j * 4) (Bytes.encode 4 target.toNat) room
    rw [Bytes.encode_length] at whole
    rw [pointer, setPointer, whole, Bytes.decode_encode]
    have small : target.toNat % 256 ^ 4 = target.toNat := Nat.mod_eq_of_lt target.toNat_lt
    rw [small, UInt32.ofNat_toNat]
  next different =>
    rw [pointer, setPointer, slice_splice_disjoint _ _ _ _ _ room (by simp; omega)]
    rfl

theorem pointer_zero (k : Nat) (inside : k < 128) : zero.pointer k = 0 := by
  rw [pointer, slice_zero _ _ (by omega), Bytes.decode_replicate_zero]
  rfl

end Block

/-- The device at the file system's registry index. Transfers within its range succeed. -/
structure Device where
  blockCount : Nat
  blockSize : Nat
  data : Nat → Block

namespace Device

def read (device : Device) (lba : Nat) : Except Fail Block :=
  if lba < device.blockCount then .ok (device.data lba)
  else .error (.fs (.blockError .outOfRange))

def write (device : Device) (lba : Nat) (block : Block) : Except Fail Device :=
  if lba < device.blockCount then .ok { device with data := Function.update device.data lba block }
  else .error (.fs (.blockError .outOfRange))

theorem read_ok {device : Device} {lba : Nat} (inside : lba < device.blockCount) :
    device.read lba = .ok (device.data lba) := if_pos inside

theorem write_ok {device : Device} {lba : Nat} (block : Block) (inside : lba < device.blockCount) :
    device.write lba block = .ok { device with data := Function.update device.data lba block } :=
  if_pos inside

end Device

end PickleOS.NextFs
