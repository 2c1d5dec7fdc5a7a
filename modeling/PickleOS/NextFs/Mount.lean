import PickleOS.NextFs.Directory

set_option autoImplicit false

namespace PickleOS.NextFs

open Shared Shared.Outcome

abbrev DeviceM := EStateM Fail Device

/-- Write consecutive blocks from `lba` on. -/
def writeRun : Nat → List Block → DeviceM Unit
  | _, [] => pure ()
  | lba, block :: rest => do
    let device ← get
    let device ← observe fun _ => device.write lba block
    set device
    writeRun (lba + 1) rest

/-- Blocks of the free-block bitmap for `totalBlocks` bits. -/
def bitmapBlocks (totalBlocks : Nat) : Nat := ((totalBlocks + 7) / 8 + blockSize - 1) / blockSize

/-- Block `i` of a byte vector; a short last block is padded with zeros. -/
def blockOf (bytes : List UInt8) (i : Nat) : Block :=
  Block.ofBytes (Bytes.slice bytes (i * blockSize) blockSize)

def emptyInodeBlock : Block :=
  (List.range inodesPerBlock).foldl (fun block slot => block.setInode slot Inode.empty) Block.zero

def formatSuperblock (totalBlocks : Nat) : Superblock :=
  let inodeCount := max 64 (totalBlocks / 100)
  let inodeTableStart := 1 + bitmapBlocks totalBlocks
  let dataStart := inodeTableStart + (inodeCount + inodesPerBlock - 1) / inodesPerBlock
  { magic := magicNumber
    blockSize := 512
    totalBlocks := .ofNat totalBlocks
    inodeCount := .ofNat inodeCount
    freeBlocks := .ofNat (totalBlocks - dataStart - 1)
    freeInodes := .ofNat (inodeCount - 1)
    bitmapStart := 1
    inodeTableStart := .ofNat inodeTableStart
    dataStart := .ofNat dataStart
    reserved := fun _ => 0 }

def format : DeviceM Unit := do
  let device ← get
  let totalBlocks := device.blockCount % 2 ^ 32
  if device.blockSize ≠ blockSize then throw (.fs .unsupportedBlockSize)
  else if totalBlocks < 10 then throw (.fs .deviceTooSmall)
  else
    let sb := formatSuperblock totalBlocks
    let dataStart := sb.dataStart.toNat
    if dataStart ≥ totalBlocks then throw (.fs .deviceTooSmall)
    else
      writeRun 0 [sb.toBytes]
      let bitmapCount := bitmapBlocks totalBlocks
      let bitmap := Bitmap.put (List.replicate (bitmapCount * blockSize) 0xFF) dataStart false
      writeRun sb.bitmapStart.toNat ((List.range bitmapCount).map (blockOf bitmap))
      let tableStart := sb.inodeTableStart.toNat
      writeRun tableStart (List.replicate (dataStart - tableStart) emptyInodeBlock)
      let root :=
        { Inode.newDir with size := 128, direct := Function.update (fun _ => 0) 0 sb.dataStart }
      let device ← get
      let buf ← observe fun _ => device.read tableStart
      writeRun tableStart [buf.setInode 1 root]
      writeRun dataStart [dotBlock rootInode rootInode]

/-- Concatenated contents of the `n` blocks from `lba` on. -/
def Device.readRun (device : Device) : Nat → Nat → Except Fail (List UInt8)
  | _, 0 => .ok []
  | lba, n + 1 => do
    let buf ← device.read lba
    let rest ← device.readRun (lba + 1) n
    .ok (buf.bytes ++ rest)

/-- Mark the inodes in use of one inode-table block, stopping at `inodeCount`. -/
def markSlots (buf : Block) (inodeCount : Nat) : Nat → Nat → List UInt8 → List UInt8
  | _, 0, bits => bits
  | inodeNum, n + 1, bits =>
    if inodeNum ≥ inodeCount then bits
    else
      let inUse := !(buf.inode (inodeNum % inodesPerBlock)).isFree
      markSlots buf inodeCount (inodeNum + 1) n (if inUse then Bitmap.put bits inodeNum true else bits)

/-- Derive the inode bitmap from the inode types found in the table. -/
def Device.markTable (device : Device) (tableStart inodeCount : Nat) :
    Nat → Nat → List UInt8 → Except Fail (List UInt8)
  | _, 0, bits => .ok bits
  | blockI, n + 1, bits => do
    let buf ← device.read (tableStart + blockI)
    device.markTable tableStart inodeCount (blockI + 1) n
      (markSlots buf inodeCount (blockI * inodesPerBlock) inodesPerBlock bits)

def Device.mount (device : Device) : Except Fail NextFS :=
  -- `copy_from_slice` into the 512-byte superblock buffer panics on another block size.
  if device.blockSize ≠ NextFs.blockSize then .error .panic
  else do
    let sb := Superblock.fromBytes (← device.read 0)
    if !sb.isValid then .error (.fs .invalidMagic)
    else
      let total := sb.totalBlocks.toNat
      let bitmap ← device.readRun sb.bitmapStart.toNat (bitmapBlocks total)
      let tableBlocks := ((sb.inodeCount + 7) / 8).toNat
      let inodeBitmap ← device.markTable sb.inodeTableStart.toNat sb.inodeCount.toNat 0 tableBlocks
        (List.replicate ((sb.inodeCount.toNat + 7) / 8) 0)
      .ok { sb := sb, blockBitmap := bitmap.take ((total + 7) / 8), inodeBitmap := inodeBitmap }

def sync : FsM Unit := do
  let s ← get
  let total := s.sb.totalBlocks.toNat
  let flush : DeviceM Unit := do
    writeRun 0 [s.sb.toBytes]
    writeRun s.sb.bitmapStart.toNat ((List.range (bitmapBlocks total)).map (blockOf s.blockBitmap))
  match flush s.device with
  | .ok () device => modify fun s => { s with device := device }
  | .error fail device => modify (fun s => { s with device := device }); throw fail

end PickleOS.NextFs
