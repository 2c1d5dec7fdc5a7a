import PickleOS.NextFs.Volume

set_option autoImplicit false

namespace PickleOS.NextFs

open Shared Shared.Outcome

/-- Block number for a logical block index; 0 for a hole. -/
def Volume.getInodeBlock (s : Volume) (v : Inode) (blockIdx : Nat) : Except Fail UInt32 :=
  if h : blockIdx < directPtrs then .ok (v.direct ⟨blockIdx, h⟩)
  else
    let indirectIdx := blockIdx - directPtrs
    if v.indirect = 0 then .ok 0
    else do
      let buf ← s.device.read v.indirect.toNat
      if indirectIdx ≥ ptrsPerBlock then .error (.fs .noSpace) else .ok (buf.pointer indirectIdx)

/-- Allocate a block for a logical index. The changed in-memory inode is returned with it. -/
def allocInodeBlock (v : Inode) (blockIdx : Nat) : FsM (Inode × UInt32) := do
  if h : blockIdx < directPtrs then
    let blockNum ← allocBlock
    pure ({ v with direct := Function.update v.direct ⟨blockIdx, h⟩ blockNum }, blockNum)
  else
    let indirectIdx := blockIdx - directPtrs
    if indirectIdx ≥ ptrsPerBlock then throw (.fs .noSpace)
    else
      let v ← (do
        if v.indirect = 0 then
          let indirect ← allocBlock
          writeBlock indirect.toNat Block.zero
          pure { v with indirect := indirect }
        else pure v)
      let dataBlock ← allocBlock
      let buf ← readBlock v.indirect.toNat
      writeBlock v.indirect.toNat (buf.setPointer indirectIdx dataBlock)
      pure (v, dataBlock)

/-- The `while` loop of a read: `n` bytes from file position `pos` on. -/
def Volume.readChunks (s : Volume) (v : Inode) (pos n : Nat) : Except Fail (List UInt8) :=
  if n = 0 then .ok []
  else do
    let blockIdx := pos / blockSize % 2 ^ 32
    let blockOff := pos % blockSize
    let blockNum ← s.getInodeBlock v blockIdx
    let chunk := min n (blockSize - blockOff)
    let bytes ←
      if blockNum = 0 then .ok (List.replicate chunk 0)
      else do
        let buf ← s.device.read blockNum.toNat
        .ok (buf.slice blockOff chunk)
    let rest ← s.readChunks v (pos + chunk) (n - chunk)
    .ok (bytes ++ rest)
termination_by n
decreasing_by
  have inside : pos % blockSize < blockSize := Nat.mod_lt _ (by decide)
  omega

/-- The bytes copied to the caller's buffer of length `len`. -/
def Volume.readInodeData (s : Volume) (inodeNum : UInt32) (offset len : Nat) : Except Fail (List UInt8) := do
  let v ← s.readInode inodeNum
  if !v.isFile then .error (.fs .notFile)
  else if offset ≥ v.size.toNat then .ok []
  else s.readChunks v offset (min len (v.size.toNat - offset))

/-- One round of the write loop: the block at `blockIdx` is allocated and zeroed if missing, then
read, changed from `blockOff` on and written back. -/
def writeChunk (v : Inode) (blockIdx blockOff : Nat) (bytes : List UInt8) : FsM Inode := do
  let found ← observe fun s => s.getInodeBlock v blockIdx
  let (v, blockNum) ← (do
    if found = 0 then
      let (v, blockNum) ← allocInodeBlock v blockIdx
      writeBlock blockNum.toNat Block.zero
      pure (v, blockNum)
    else pure (v, found))
  let buf ← readBlock blockNum.toNat
  writeBlock blockNum.toNat (buf.splice blockOff bytes)
  pure v

/-- The `while` loop of a write; `pos` is `offset + written`, taken as a `u64`. -/
def writeChunks (v : Inode) (pos : Nat) (data : List UInt8) : FsM Inode :=
  if h : data = [] then pure v
  else do
    let filePos := pos % 2 ^ 64
    let blockIdx := filePos / blockSize % 2 ^ 32
    let blockOff := filePos % blockSize
    let chunk := min data.length (blockSize - blockOff)
    let v ← writeChunk v blockIdx blockOff (data.take chunk)
    writeChunks v (pos + chunk) (data.drop chunk)
termination_by data.length
decreasing_by
  have inside : pos % 2 ^ 64 % blockSize < blockSize := Nat.mod_lt _ (by decide)
  have nonempty : 0 < data.length := List.length_pos_iff.mpr h
  rw [List.length_drop]
  omega

/-- Write `data` at `offset`, growing the in-memory inode, which the caller has to write back. -/
def writeInodeData (now : UInt32) (v : Inode) (offset : Nat) (data : List UInt8) : FsM (Inode × Nat) := do
  if !v.isFile && !v.isDir then throw (.fs .notFile)
  else
    let v ← writeChunks v offset data
    let written := data.length
    let stop := (offset + written) % 2 ^ 64
    let v := if stop > v.size.toNat then { v with size := UInt64.ofNat stop } else v
    let v := if written > 0 then { v with mtime := now } else v
    pure (v, written)

def Volume.readFile (s : Volume) (inodeNum : UInt32) : Except Fail (List UInt8) := do
  let v ← s.readInode inodeNum
  if !v.isFile then .error (.fs .notFile)
  else s.readInodeData inodeNum 0 v.size.toNat

/-- Free the direct blocks `i, i + 1, ..` (`n` of them) and clear their pointers. -/
def freeDirects (v : Inode) : Nat → Nat → FsM Inode
  | _, 0 => pure v
  | i, n + 1 => do
    if h : i < directPtrs then
      if v.direct ⟨i, h⟩ ≠ 0 then
        freeBlock (v.direct ⟨i, h⟩)
        freeDirects { v with direct := Function.update v.direct ⟨i, h⟩ 0 } (i + 1) n
      else freeDirects v (i + 1) n
    else throw .panic

/-- Free the blocks named by the pointers `i, i + 1, ..` (`n` of them) of an indirect block that was
read into `buf`. Indexing past the buffer panics. -/
def freePointers (buf : Block) : Nat → Nat → FsM Unit
  | _, 0 => pure ()
  | i, n + 1 => do
    if i < ptrsPerBlock then
      if buf.pointer i ≠ 0 then freeBlock (buf.pointer i)
      freePointers buf (i + 1) n
    else throw .panic

def freeInodeBlocks (v : Inode) : FsM Inode := do
  let v ← freeDirects v 0 directPtrs
  if v.indirect ≠ 0 then
    let buf ← readBlock v.indirect.toNat
    freePointers buf 0 ptrsPerBlock
    freeBlock v.indirect
    pure { v with indirect := 0 }
  else pure v

/-- Index of the last block of a file of `size` bytes, as a `u32`. -/
def lastBlock (size : Nat) : Nat :=
  if size = 0 then 0 else (size - 1) / blockSize % 2 ^ 32

-- Arithmetic on block indices is `u32` arithmetic of the release build: it wraps.
def truncateInode (v : Inode) (newSize : Nat) : FsM Inode := do
  if newSize ≥ v.size.toNat then pure { v with size := UInt64.ofNat newSize }
  else
    let oldLast := lastBlock v.size.toNat
    let newLast := lastBlock newSize
    let first := (newLast + 1) % 2 ^ 32
    let v ← freeDirects v first (min directPtrs ((oldLast + 1) % 2 ^ 32) - first)
    let startIndirect := if newLast ≥ directPtrs then newLast - directPtrs + 1 else 0
    let v ← (do
      if newLast < directPtrs ∧ v.indirect ≠ 0 then
        if newSize = 0 ∨ newLast < directPtrs then
          let buf ← readBlock v.indirect.toNat
          let oldCount := ((oldLast + 2 ^ 32 - directPtrs) % 2 ^ 32 + 1) % 2 ^ 32
          freePointers buf startIndirect (min ptrsPerBlock oldCount - startIndirect)
          if newLast < directPtrs then
            freeBlock v.indirect
            pure { v with indirect := 0 }
          else pure v
        else pure v
      else if oldLast ≥ directPtrs ∧ v.indirect ≠ 0 then
        let buf ← readBlock v.indirect.toNat
        let endIndirect := oldLast - directPtrs + 1
        freePointers buf startIndirect (endIndirect - startIndirect)
        pure v
      else pure v)
    pure { v with size := UInt64.ofNat newSize }

def truncate (inodeNum : UInt32) (newSize : Nat) : FsM Unit := do
  let v ← observe fun s => s.readInode inodeNum
  if !v.isFile then throw (.fs .notFile)
  else
    let v ← truncateInode v newSize
    writeInode inodeNum v

def writeFile (now inodeNum : UInt32) (data : List UInt8) : FsM Unit := do
  let v ← observe fun s => s.readInode inodeNum
  if !v.isFile then throw (.fs .notFile)
  else
    let v ← truncateInode v 0
    let (v, _) ← writeInodeData now v 0 data
    writeInode inodeNum v

/-- The closure of a `vfs::write`: read the inode, write the data, write the inode back. -/
def writeAt (now inodeNum : UInt32) (offset : Nat) (data : List UInt8) : FsM Nat := do
  let v ← observe fun s => s.readInode inodeNum
  let (v, written) ← writeInodeData now v offset data
  writeInode inodeNum v
  pure written

end PickleOS.NextFs
