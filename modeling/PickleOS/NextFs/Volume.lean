import PickleOS.NextFs.Records
import PickleOS.Shared.Bitmap

set_option autoImplicit false

namespace PickleOS.NextFs

open Shared Shared.Outcome

/-- A mounted instance: cached superblock and bitmaps. In `blockBitmap` a set bit means free, in
`inodeBitmap` it means in use. -/
structure NextFS where
  sb : Superblock
  blockBitmap : List UInt8
  inodeBitmap : List UInt8

/-- A mounted instance together with the device below it. -/
structure Volume extends NextFS where
  device : Device

/-- File-system code: every effect on the volume made before an error stays. -/
abbrev FsM := EStateM Fail Volume

def readBlock (lba : Nat) : FsM Block := observe fun s => s.device.read lba

def writeBlock (lba : Nat) (block : Block) : FsM Unit := fun s =>
  match s.device.write lba block with
  | .ok device => .ok () { s with device := device }
  | .error fail => .error fail s

/-- The scan of both allocators; indexing past the bitmap panics. -/
def scanBits (bits : List UInt8) (want : Bool) : Nat → Nat → Except Fail (Option Nat)
  | _, 0 => .ok none
  | bit, n + 1 =>
    if bit / 8 < bits.length then
      if Bitmap.test bits bit = want then .ok (some bit) else scanBits bits want (bit + 1) n
    else .error .panic

def allocBlock : FsM UInt32 := do
  let s ← get
  if s.sb.freeBlocks = 0 then throw (.fs .noSpace)
  else
    let start := s.sb.dataStart.toNat
    match ← observe fun _ => scanBits s.blockBitmap true start (s.sb.totalBlocks.toNat - start) with
    | some bit =>
      modify fun s =>
        { s with
          blockBitmap := Bitmap.put s.blockBitmap bit false
          sb := { s.sb with freeBlocks := s.sb.freeBlocks - 1 } }
      pure (UInt32.ofNat bit)
    | none => throw (.fs .noSpace)

def freeBlock (blockNum : UInt32) : FsM Unit := do
  let s ← get
  if blockNum.toNat / 8 < s.blockBitmap.length then
    modify fun s =>
      { s with
        blockBitmap := Bitmap.put s.blockBitmap blockNum.toNat true
        sb := { s.sb with freeBlocks := s.sb.freeBlocks + 1 } }
  else throw .panic

def allocInode : FsM UInt32 := do
  let s ← get
  if s.sb.freeInodes = 0 then throw (.fs .noSpace)
  else
    match ← observe fun _ => scanBits s.inodeBitmap false 1 (s.sb.inodeCount.toNat - 1) with
    | some i =>
      modify fun s =>
        { s with
          inodeBitmap := Bitmap.put s.inodeBitmap i true
          sb := { s.sb with freeInodes := s.sb.freeInodes - 1 } }
      pure (UInt32.ofNat i)
    | none => throw (.fs .noSpace)

def freeInode (inodeNum : UInt32) : FsM Unit := do
  let s ← get
  if inodeNum.toNat / 8 < s.inodeBitmap.length then
    modify fun s =>
      { s with
        inodeBitmap := Bitmap.put s.inodeBitmap inodeNum.toNat false
        sb := { s.sb with freeInodes := s.sb.freeInodes + 1 } }
  else throw .panic

def Volume.readInode (s : Volume) (inodeNum : UInt32) : Except Fail Inode :=
  if inodeNum = 0 ∨ inodeNum ≥ s.sb.inodeCount then .error (.fs .invalidInode)
  else do
    let blockNum := s.sb.inodeTableStart + inodeNum / 8
    let buf ← s.device.read blockNum.toNat
    .ok (buf.inode (inodeNum % 8).toNat)

def writeInodeRaw (inodeTableStart inodeNum : UInt32) (v : Inode) : FsM Unit := do
  let blockNum := inodeTableStart + inodeNum / 8
  let buf ← readBlock blockNum.toNat
  writeBlock blockNum.toNat (buf.setInode (inodeNum % 8).toNat v)

def writeInode (inodeNum : UInt32) (v : Inode) : FsM Unit := do
  let s ← get
  if inodeNum = 0 ∨ inodeNum ≥ s.sb.inodeCount then throw (.fs .invalidInode)
  else writeInodeRaw s.sb.inodeTableStart inodeNum v

end PickleOS.NextFs
