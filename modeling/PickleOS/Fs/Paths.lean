import PickleOS.Fs.Descriptors
import PickleOS.NextFs.Directory

set_option autoImplicit false

namespace PickleOS.Fs

open Shared Shared.Outcome NextFs

structure Files where
  -- `MOUNTED_FS`.
  mounted : Option Volume
  vfs : Vfs

inductive Failure where
  | vfs (stop : Stop)
  -- A panic in the file system.
  | panic
  deriving DecidableEq

abbrev FilesM := EStateM Failure Files

def VfsError.ofFs : FsError → VfsError
  | .notFound => .notFound
  | .notDirectory => .notDirectory
  | .notFile => .notFile
  | .alreadyExists => .alreadyExists
  | .noSpace => .noSpace
  | .permissionDenied => .permissionDenied
  | other => .fsError other

def Failure.ofFs : Fail → Failure
  | .fs error => .vfs (.error (.ofFs error))
  | .panic => .panic

def fail {α : Type} (error : VfsError) : FilesM α := throw (.vfs (.error error))

def withFs {α : Type} (f : Volume → Except Fail α) : FilesM α := fun s =>
  match s.mounted with
  | none => .error (.vfs (.error .notMounted)) s
  | some volume =>
    match f volume with
    | .ok value => .ok value s
    | .error reason => .error (.ofFs reason) s

/-- What a failing operation has done by then stays. -/
def withFsMut {α : Type} (m : FsM α) : FilesM α := fun s =>
  match s.mounted with
  | none => .error (.vfs (.error .notMounted)) s
  | some volume =>
    match m volume with
    | .ok value volume => .ok value { s with mounted := some volume }
    | .error reason volume => .error (.ofFs reason) { s with mounted := some volume }

def onVfs {α : Type} (m : VfsM α) : FilesM α := fun s =>
  match m s.vfs with
  | .ok value vfs => .ok value { s with vfs := vfs }
  | .error stop vfs => .error (.vfs stop) { s with vfs := vfs }

def credentials (task : TaskId) : FilesM Credentials := do
  let s ← get
  pure ((s.vfs.credentials.lookup task).getD .root)

/-! ### Paths -/

def slash : UInt8 := 0x2F

def splitPath (path : Name) : Name × Name :=
  if slash ∈ path then
    let name := (path.reverse.takeWhile (· ≠ slash)).reverse
    let pos := path.length - name.length - 1
    (if pos = 0 then [slash] else path.take pos, name)
  else ([slash], path)

def resolvePath (path : Name) : FilesM UInt32 :=
  if path = [] then fail .notFound
  else
    withFs fun fs =>
      if path = [slash] then .ok rootInode
      else
        let parts := ((path.dropWhile (· = slash)).splitOn slash).filter (· ≠ [])
        parts.foldlM (fun current part => fs.dirLookup current part) rootInode

def requireDirWrite (task : TaskId) (dirInode : UInt32) : FilesM Unit := do
  let creds ← credentials task
  withFs fun fs => fs.checkPermission dirInode creds.uid creds.gid mayWrite

def parentOf (task : TaskId) (path : Name) : FilesM (UInt32 × Name) := do
  let (parentPath, name) := splitPath path
  let parentInode ← resolvePath parentPath
  requireDirWrite task parentInode
  pure (parentInode, name)

def unlink (now : UInt32) (task : TaskId) (path : Name) : FilesM Unit := do
  let (parentInode, name) ← parentOf task path
  withFsMut (NextFs.unlink now parentInode name)

def rmdir (task : TaskId) (path : Name) : FilesM Unit := do
  let (parentInode, name) ← parentOf task path
  withFsMut (NextFs.rmdir parentInode name)

/-- The new inode gets the owner of the task. An error of `chown` is ignored. -/
def owned (now : UInt32) (creds : Credentials) (create : FsM UInt32) : FsM UInt32 := do
  let newInode ← create
  let _ ← catchError (NextFs.chown now newInode creds.uid creds.gid)
  pure newInode

def mkdir (now : UInt32) (task : TaskId) (path : Name) : FilesM Unit := do
  let (parentInode, name) ← parentOf task path
  let creds ← credentials task
  let _ ← withFsMut (owned now creds (createDir now parentInode name))

def truncate (task : TaskId) (path : Name) (size : UInt64) : FilesM Unit := do
  let inode ← resolvePath path
  let creds ← credentials task
  withFsMut do
    observe fun fs => fs.checkPermission inode creds.uid creds.gid mayWrite
    NextFs.truncate inode size.toNat

def stat (path : Name) : FilesM FileStat := do
  let inode ← resolvePath path
  withFs fun fs => fs.stat inode

def chmod (now : UInt32) (task : TaskId) (path : Name) (mode : UInt16) : FilesM Unit := do
  let inode ← resolvePath path
  let creds ← credentials task
  withFsMut do
    let st ← observe fun fs => fs.stat inode
    if creds.uid ≠ 0 ∧ creds.uid ≠ st.uid then throw (.fs .permissionDenied)
    else NextFs.chmod now inode mode

def chown (now : UInt32) (task : TaskId) (path : Name) (uid gid : UInt16) : FilesM Unit := do
  let inode ← resolvePath path
  let creds ← credentials task
  if creds.uid ≠ 0 then fail .permissionDenied
  else withFsMut (NextFs.chown now inode uid gid)

/-! ### Open files -/

def createNew (now : UInt32) (task : TaskId) (path : Name) : FilesM UInt32 := do
  let (parentInode, name) ← parentOf task path
  let creds ← credentials task
  withFsMut (owned now creds (createFile now parentInode name))

/-- The inode that `open` opens. -/
def openedInode (now : UInt32) (task : TaskId) (path : Name) (flags : OpenFlags) : FilesM UInt32 := do
  if flags.create then
    let found ← attempt (fun failure => match failure
      with | .vfs (.error error) => some error | _ => none) (resolvePath path)
    match found with
    | .ok inode =>
      if flags.truncate then withFsMut (NextFs.truncate inode 0)
      pure inode
    | .error error =>
      if error = .notFound ∨ error = .fsError .notFound then createNew now task path else fail error
  else resolvePath path

/-- `open`. -/
def openFile (now : UInt32) (task : TaskId) (path : Name) (flags : OpenFlags) : FilesM Fd := do
  let inode ← openedInode now task path flags
  let creds ← credentials task
  let want := (if flags.read then mayRead else 0) ||| (if flags.write then mayWrite else 0)
  if want ≠ 0 then withFs fun fs => fs.checkPermission inode creds.uid creds.gid want
  let pos ← if flags.append then withFs fun fs => (fs.readInode inode).map (·.size) else pure 0
  onVfs (allocFd task { fileType := .regular inode, flags := flags, pos := pos })

def getFile (task : TaskId) (fd : Fd) : FilesM OpenFile := do
  let s ← get
  match s.vfs.fdTables.lookup task with
  | none => fail .invalidOperation
  | some table =>
    match table.files.lookup fd with
    | none => fail .badFileDescriptor
    | some file => pure file

/-- `file.pos` of an open file is set. -/
def setPos (task : TaskId) (fd : Fd) (pos : UInt64) : FilesM Unit := do
  let file ← getFile task fd
  modify fun s =>
    match s.vfs.fdTables.lookup task with
    | none => s
    | some table =>
      let table := { table with files := table.files.insert fd { file with pos := pos } }
      { s with vfs := { s.vfs with fdTables := s.vfs.fdTables.insert task table } }

/-- The end of `read` and `write` on a regular file. -/
def advance (task : TaskId) (fd : Fd) (n : Nat) : FilesM Unit := do
  let file ← getFile task fd
  setPos task fd (file.pos + UInt64.ofNat n)

/-- The beginning of `read`: the type and the position of the file. -/
def beginRead (task : TaskId) (fd : Fd) : FilesM (FileType × UInt64) := do
  let file ← getFile task fd
  if file.flags.read then pure (file.fileType, file.pos) else fail .writeOnlyFile

def beginWrite (task : TaskId) (fd : Fd) : FilesM (FileType × UInt64) := do
  let file ← getFile task fd
  if file.flags.write then pure (file.fileType, file.pos) else fail .readOnlyFile

def readRegular (task : TaskId) (fd : Fd) (inode : UInt32) (pos : UInt64)
    (len : Nat) : FilesM (List UInt8) := do
  let bytes ← withFs fun fs => fs.readInodeData inode pos.toNat len
  advance task fd bytes.length
  pure bytes

def writeRegular (now : UInt32) (task : TaskId) (fd : Fd) (inode : UInt32) (pos : UInt64)
    (data : List UInt8) : FilesM Nat := do
  let written ← withFsMut do
    let v ← observe fun fs => fs.readInode inode
    let (v, written) ← writeInodeData now v pos.toNat data
    writeInode inode v
    pure written
  advance task fd written
  pure written

inductive SeekWhence where
  | set
  | current
  | fileEnd

def seek (task : TaskId) (fd : Fd) (offset : Int64) (whence : SeekWhence) : FilesM UInt64 := do
  let file ← getFile task fd
  match file.fileType with
  | .regular inode =>
    let size ← withFs fun fs => (fs.readInode inode).map (·.size)
    -- The sums wrap.
    let newPos := match whence with
      | .set => offset
      | .current => file.pos.toInt64 + offset
      | .fileEnd => size.toInt64 + offset
    if newPos < 0 then fail .invalidOperation
    else
      setPos task fd newPos.toUInt64
      pure newPos.toUInt64
  | _ => fail .invalidOperation

end PickleOS.Fs
