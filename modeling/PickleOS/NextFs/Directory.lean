import PickleOS.NextFs.FileIo

set_option autoImplicit false

namespace PickleOS.NextFs

open Shared Shared.Outcome

abbrev Name := List UInt8

def dot : Name := [0x2E]

def dotdot : Name := [0x2E, 0x2E]

/-- The entry loop shared by the directory operations: from entry `i` on, `n` entries, up to the first
one that `pick` accepts or the first unallocated block. `pick` sees the block number, the slot, the
block and the entry. -/
def Volume.scanEntries {β : Type} (s : Volume) (v : Inode)
    (pick : Nat → Nat → Block → DirEntry → Option β) : Nat → Nat → Except Fail (Option β)
  | _, 0 => .ok none
  | i, n + 1 => do
    let blockNum ← s.getInodeBlock v (i / entriesPerBlock % 2 ^ 32)
    if blockNum = 0 then .ok none
    else do
      let buf ← s.device.read blockNum.toNat
      let slot := i % entriesPerBlock
      match pick blockNum.toNat slot buf (buf.entry slot) with
      | some found => .ok (some found)
      | none => s.scanEntries v pick (i + 1) n

def totalEntries (v : Inode) : Nat := v.size.toNat / recordSize

def Volume.dirLookup (s : Volume) (dirInode : UInt32) (name : Name) : Except Fail UInt32 := do
  let v ← s.readInode dirInode
  if !v.isDir then .error (.fs .notDirectory)
  else
    let found ← s.scanEntries v
      (fun _ _ _ entry => if entry.isUsed && entry.nameStr = name then some entry.inode else none)
      0 (totalEntries v)
    match found with
    | some inode => .ok inode
    | none => .error (.fs .notFound)

def Volume.listEntries (s : Volume) (v : Inode) : Nat → Nat → Except Fail (List (Name × UInt32))
  | _, 0 => .ok []
  | i, n + 1 => do
    let blockNum ← s.getInodeBlock v (i / entriesPerBlock % 2 ^ 32)
    if blockNum = 0 then .ok []
    else do
      let buf ← s.device.read blockNum.toNat
      let entry := buf.entry (i % entriesPerBlock)
      let rest ← s.listEntries v (i + 1) n
      .ok (if entry.isUsed then (entry.nameStr, entry.inode) :: rest else rest)

def Volume.dirList (s : Volume) (dirInode : UInt32) : Except Fail (List (Name × UInt32)) := do
  let v ← s.readInode dirInode
  if !v.isDir then .error (.fs .notDirectory)
  else s.listEntries v 0 (totalEntries v)

def dirAddEntry (now dirInode : UInt32) (name : Name) (targetInode : UInt32) : FsM Unit := do
  if name.length ≥ maxNameLen then throw (.fs .nameTooLong)
  else
    let s ← get
    if (s.dirLookup dirInode name).isOk then throw (.fs .alreadyExists)
    else
      let v ← observe fun s => s.readInode dirInode
      if !v.isDir then throw (.fs .notDirectory)
      else
        let newEntry := DirEntry.new targetInode name
        let unused ← observe fun s => s.scanEntries v
          (fun blockNum slot buf entry => if entry.isUsed then none else some (blockNum, slot, buf))
          0 (totalEntries v)
        match unused with
        | some (blockNum, slot, buf) => writeBlock blockNum (buf.setEntry slot newEntry)
        | none =>
          let (v, _) ← writeInodeData now v v.size.toNat newEntry.toBytes
          -- `write_inode_data` has already counted the entry in `size`; it is counted again here.
          writeInode dirInode { v with size := v.size + 64 }

def dirRemoveEntry (dirInode : UInt32) (name : Name) : FsM UInt32 := do
  let v ← observe fun s => s.readInode dirInode
  if !v.isDir then throw (.fs .notDirectory)
  else
    let found ← observe fun s => s.scanEntries v
      (fun blockNum slot buf entry =>
        if entry.isUsed && entry.nameMatches name then some (blockNum, slot, buf, entry.inode) else none)
      0 (totalEntries v)
    match found with
    | some (blockNum, slot, buf, targetInode) =>
      writeBlock blockNum (buf.setEntry slot (DirEntry.new 0 []))
      pure targetInode
    | none => throw (.fs .notFound)

/-- Catch an error value; a panic is not caught. -/
def catchError {α : Type} (m : FsM α) : FsM (Except FsError α) :=
  attempt (fun fail => match fail with | .fs error => some error | .panic => none) m

def createFile (now dirInode : UInt32) (name : Name) : FsM UInt32 := do
  let newInodeNum ← allocInode
  writeInode newInodeNum { Inode.newFile with mtime := now }
  match ← catchError (dirAddEntry now dirInode name newInodeNum) with
  | .ok () => pure newInodeNum
  | .error error =>
    freeInode newInodeNum
    throw (.fs error)

def dotBlock (self parent : UInt32) : Block :=
  (Block.zero.setEntry 0 (DirEntry.new self dot)).setEntry 1 (DirEntry.new parent dotdot)

def createDir (now parentInode : UInt32) (name : Name) : FsM UInt32 := do
  let newInodeNum ← allocInode
  let dataBlock ← allocBlock
  writeBlock dataBlock.toNat (dotBlock newInodeNum parentInode)
  writeInode newInodeNum
    { Inode.newDir with
      mtime := now
      direct := Function.update (fun _ => 0) 0 dataBlock
      size := 128 }
  match ← catchError (dirAddEntry now parentInode name newInodeNum) with
  | .ok () => pure newInodeNum
  | .error error =>
    freeBlock dataBlock
    freeInode newInodeNum
    throw (.fs error)

def unlink (now dirInode : UInt32) (name : Name) : FsM Unit := do
  if name = dot ∨ name = dotdot then throw (.fs .invalidOperation)
  else
    let targetInode ← dirRemoveEntry dirInode name
    let v ← observe fun s => s.readInode targetInode
    if !v.isFile then
      let _ ← catchError (dirAddEntry now dirInode name targetInode)
      throw (.fs .notFile)
    else
      let v ← freeInodeBlocks v
      writeInode targetInode { v with inodeType := 0, size := 0 }
      freeInode targetInode

def rmdir (parentInode : UInt32) (name : Name) : FsM Unit := do
  if name = dot ∨ name = dotdot then throw (.fs .invalidOperation)
  else
    let targetInode ← observe fun s => s.dirLookup parentInode name
    let v ← observe fun s => s.readInode targetInode
    if !v.isDir then throw (.fs .notDirectory)
    else
      let entries ← observe fun s => s.dirList targetInode
      if entries.length > 2 then throw (.fs .directoryNotEmpty)
      else
        let _ ← dirRemoveEntry parentInode name
        let v ← freeInodeBlocks v
        writeInode targetInode { v with inodeType := 0, size := 0 }
        freeInode targetInode

def updateInode (inodeNum : UInt32) (change : Inode → Inode) : FsM Unit := do
  let v ← observe fun s => s.readInode inodeNum
  if v.isFree then throw (.fs .notFound) else writeInode inodeNum (change v)

def chmod (now inodeNum : UInt32) (mode : UInt16) : FsM Unit :=
  updateInode inodeNum fun v => { v with mode := mode &&& 0o777, mtime := now }

def chown (now inodeNum : UInt32) (uid gid : UInt16) : FsM Unit :=
  updateInode inodeNum fun v => { v with uid := uid, gid := gid, mtime := now }

structure FileStat where
  inode : UInt32
  inodeType : UInt8
  mode : UInt16
  uid : UInt16
  gid : UInt16
  size : UInt64
  mtime : UInt32

def Volume.stat (s : Volume) (inodeNum : UInt32) : Except Fail FileStat := do
  let v ← s.readInode inodeNum
  if v.isFree then .error (.fs .notFound)
  else
    .ok
      { inode := inodeNum, inodeType := v.inodeType, mode := v.mode, uid := v.uid, gid := v.gid
        size := v.size, mtime := v.mtime }

def Volume.checkPermission (s : Volume) (inodeNum : UInt32) (uid gid want : UInt16) : Except Fail Unit := do
  let v ← s.readInode inodeNum
  if v.isFree then .error (.fs .notFound)
  else if v.permits uid gid want then .ok ()
  else .error (.fs .permissionDenied)

end PickleOS.NextFs
