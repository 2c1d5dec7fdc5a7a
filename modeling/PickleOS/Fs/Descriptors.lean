import PickleOS.Shared.Map
import PickleOS.NextFs.Device

set_option autoImplicit false

/-!
# Descriptor tables, pipes and sockets

An operation runs with interrupts off, so it is one step for every other task; only the blocking loops
of `read` and `write` on a pipe are cut into their locked sections. A task is named by the `u32` its
table is kept under.
-/

namespace PickleOS.Fs

open Shared Shared.Outcome

abbrev Fd := Nat
abbrev TaskId := Nat
/-- `NEXT_PIPE_ID` is an `AtomicU64`: ids are numbers, as long as fewer than 2^64 pipes have been made. -/
abbrev PipeId := Nat
abbrev SocketId := Nat

/-- `current_id() as u32`. -/
def taskKey (id : Nat) : TaskId := id % 2 ^ 32

def maxFdsPerTask : Nat := 64

def stdin : Fd := 0
def stdout : Fd := 1
def stderr : Fd := 2

structure OpenFlags where
  read : Bool := false
  write : Bool := false
  create : Bool := false
  truncate : Bool := false
  append : Bool := false
  deriving DecidableEq

def OpenFlags.rdonly : OpenFlags := { read := true }

def OpenFlags.wronly : OpenFlags := { write := true }

inductive FileType where
  | regular (inode : UInt32)
  | console
  | keyboard
  | pipe (id : PipeId) (isWrite : Bool)
  | socket (id : SocketId)
  deriving DecidableEq

structure OpenFile where
  fileType : FileType
  flags : OpenFlags
  pos : UInt64 := 0
  deriving DecidableEq

def OpenFile.console (writable : Bool) : OpenFile :=
  { fileType := .console, flags := if writable then .wronly else .rdonly }

def OpenFile.keyboard : OpenFile := { fileType := .keyboard, flags := .rdonly }

def OpenFile.pipe (id : PipeId) (isWrite : Bool) : OpenFile :=
  { fileType := .pipe id isWrite, flags := if isWrite then .wronly else .rdonly }

structure Pipe where
  buf : List UInt8
  readEnds : Nat
  writeEnds : Nat
  deriving DecidableEq

structure FdTable where
  files : Map Fd OpenFile
  nextFd : Fd

def FdTable.new : FdTable := { files := ∅, nextFd := 3 }

def FdTable.standard : FdTable :=
  { FdTable.new with
    files := (((∅ : Map Fd OpenFile).insert stdin .keyboard).insert stdout (.console true)).insert
      stderr (.console true) }

structure Credentials where
  uid : UInt16
  gid : UInt16
  deriving DecidableEq

def Credentials.root : Credentials := ⟨0, 0⟩

/-- The sockets of the network stack. A handle stands for the smoltcp socket behind it; handles are
numbered by creation, where smoltcp uses the numbers of removed sockets again. -/
structure NetworkStack where
  socketMap : Map SocketId Nat
  boundPorts : Map SocketId UInt16
  nextSocketId : SocketId
  nextHandle : Nat

def maxSockets : Nat := 64

structure Vfs where
  fdTables : Map TaskId FdTable
  pipes : Map PipeId Pipe
  nextPipeId : PipeId
  credentials : Map TaskId Credentials
  /-- `none` before `net::init`. -/
  stack : Option NetworkStack
  -- History that nothing looks at: whether an end was ever closed at a count of zero.
  underflow : Bool

def Vfs.initial : Vfs where
  fdTables := ∅
  pipes := ∅
  nextPipeId := 1
  credentials := ∅
  stack := some { socketMap := ∅, boundPorts := ∅, nextSocketId := 1, nextHandle := 0 }
  underflow := false

inductive VfsError where
  | notFound
  | notFile
  | notDirectory
  | alreadyExists
  | noSpace
  | badFileDescriptor
  | invalidOperation
  | readOnlyFile
  | writeOnlyFile
  | tooManyFiles
  | notMounted
  | permissionDenied
  | fsError (error : NextFs.FsError)
  deriving DecidableEq

/-- Why an operation does not return a value: an error, or a loop that never ends. -/
inductive Stop where
  | error (error : VfsError)
  | hang
  deriving DecidableEq

abbrev VfsM := EStateM Stop Vfs

/-- The descriptor that the search of `alloc_fd` tries after `fd`. -/
def nextTry (fd : Nat) : Nat :=
  if maxFdsPerTask ≤ (fd + 1) % 2 ^ 32 then 3 else (fd + 1) % 2 ^ 32

/-- The search of `alloc_fd` for a descriptor that is not taken. -/
def search (files : Map Fd OpenFile) : Nat → Fd → Option Fd
  | 0, _ => none
  | n + 1, fd => if (files.lookup fd).isSome then search files n (nextTry fd) else some fd

namespace FdTable

/-- The search goes round in circles: after 128 tries it comes to no descriptor that it has not tried. -/
def allocFd (table : FdTable) (file : OpenFile) : Except Stop (Fd × FdTable) :=
  if maxFdsPerTask ≤ table.files.entries.length then .error (.error .tooManyFiles)
  else
    match search table.files 128 table.nextFd with
    | none => .error .hang
    | some fd => .ok (fd, { files := table.files.insert fd file, nextFd := (fd + 1) % 2 ^ 32 })

end FdTable

/-- `alloc_fd` in the table of a task. -/
def allocFd (task : TaskId) (file : OpenFile) : VfsM Fd := fun s =>
  match s.fdTables.lookup task with
  | none => .error (.error .invalidOperation) s
  | some table =>
    match table.allocFd file with
    | .error stop => .error stop s
    | .ok (fd, table) => .ok fd { s with fdTables := s.fdTables.insert task table }

namespace Pipe

def ends (p : Pipe) (isWrite : Bool) : Nat := if isWrite then p.writeEnds else p.readEnds

def dupEnd (p : Pipe) (isWrite : Bool) : Pipe :=
  if isWrite then { p with writeEnds := p.writeEnds + 1 } else { p with readEnds := p.readEnds + 1 }

/-- Both counts are taken down with `saturating_sub`. -/
def closeEnd (p : Pipe) (isWrite : Bool) : Pipe :=
  if isWrite then { p with writeEnds := p.writeEnds - 1 } else { p with readEnds := p.readEnds - 1 }

end Pipe

namespace Vfs

variable (s : Vfs)

def pipeDupEnd (id : PipeId) (isWrite : Bool) : Vfs :=
  match s.pipes.lookup id with
  | some p => { s with pipes := s.pipes.insert id (p.dupEnd isWrite) }
  | none => s

def pipeCloseEnd (id : PipeId) (isWrite : Bool) : Vfs :=
  match s.pipes.lookup id with
  | some p =>
    let p' := p.closeEnd isWrite
    { s with
      pipes := if p'.readEnds = 0 ∧ p'.writeEnds = 0 then s.pipes.erase id else s.pipes.insert id p'
      underflow := s.underflow || p.ends isWrite == 0 }
  | none => s

def tcpDestroy (id : SocketId) : Vfs :=
  { s with
    stack := s.stack.map fun stack =>
      { stack with socketMap := stack.socketMap.erase id, boundPorts := stack.boundPorts.erase id } }

def tcpBind (id : SocketId) (port : UInt16) : Option Vfs :=
  s.stack.bind fun stack =>
    if (stack.socketMap.lookup id).isSome then
      some { s with stack := some { stack with boundPorts := stack.boundPorts.insert id port } }
    else none

/-- What `cleanup_task_fds` and `close` do with a file that leaves a table. -/
def release (file : OpenFile) : Vfs :=
  match file.fileType with
  | .pipe id isWrite => s.pipeCloseEnd id isWrite
  | .socket id => s.tcpDestroy id
  | _ => s

/-- What `clone_task_fds` does with a file that enters a second table. -/
def retain (file : OpenFile) : Vfs :=
  match file.fileType with
  | .pipe id isWrite => s.pipeDupEnd id isWrite
  | _ => s

def initTaskFds (task : TaskId) : Vfs := { s with fdTables := s.fdTables.insert task .standard }

def cleanupTaskFds (task : TaskId) : Vfs :=
  let released :=
    match s.fdTables.lookup task with
    | some table => (Map.values table.files).foldl release { s with fdTables := s.fdTables.erase task }
    | none => s
  { released with credentials := released.credentials.erase task }

def cloneTaskFds (parent child : TaskId) : Vfs :=
  let cloned :=
    match s.fdTables.lookup parent with
    | some table =>
      let retained := (Map.values table.files).foldl retain s
      { retained with fdTables := retained.fdTables.insert child table }
    | none => { s with fdTables := s.fdTables.insert child .standard }
  let creds := (cloned.credentials.lookup parent).getD .root
  { cloned with credentials := cloned.credentials.insert child creds }

end Vfs

def close (task : TaskId) (fd : Fd) : VfsM Unit := fun s =>
  match s.fdTables.lookup task with
  | none => .error (.error .invalidOperation) s
  | some table =>
    match table.files.lookup fd with
    | none => .error (.error .badFileDescriptor) s
    | some file =>
      let closed := { s with fdTables := s.fdTables.insert task { table with files := table.files.erase fd } }
      .ok () (closed.release file)

/-- `NEXT_PIPE_ID.fetch_add(1)`. -/
def freshPipeId : VfsM PipeId := fun s => .ok s.nextPipeId { s with nextPipeId := s.nextPipeId + 1 }

def Vfs.register (id : PipeId) (s : Vfs) : Vfs :=
  { s with pipes := s.pipes.insert id { buf := [], readEnds := 1, writeEnds := 1 } }

def pipe (task : TaskId) : VfsM (Fd × Fd) := do
  let s ← get
  if (s.fdTables.lookup task).isNone then throw (.error .invalidOperation)
  else
    let id ← freshPipeId
    let readFd ← allocFd task (.pipe id false)
    -- When this one fails the read end stays behind, of a pipe that is never registered.
    let writeFd ← allocFd task (.pipe id true)
    modify (Vfs.register id)
    pure (readFd, writeFd)

/-- `create_tcp_socket`; `none` for either of its errors. -/
def NetworkStack.createTcpSocket (stack : NetworkStack) : Option (SocketId × NetworkStack) :=
  if maxSockets ≤ stack.socketMap.entries.length then none
  else
    some (stack.nextSocketId,
      { stack with
        socketMap := stack.socketMap.insert stack.nextSocketId stack.nextHandle
        nextSocketId := (stack.nextSocketId + 1) % 2 ^ 32
        nextHandle := stack.nextHandle + 1 })

/-- `SYS_SOCKET` past its checks. A socket that gets no descriptor is closed, but stays in the map. -/
def sysSocket (task : TaskId) : VfsM Fd := fun s =>
  match s.stack.bind NetworkStack.createTcpSocket with
  | none => .error (.error .invalidOperation) s
  | some (id, stack) =>
    allocFd task { fileType := .socket id, flags := { read := true, write := true } }
      { s with stack := some stack }

/-- `PIPE_CAPACITY`. -/
def pipeCapacity : Nat := 4096

inductive ReadOutcome where
  | delivered (bytes : List UInt8)
  | eof
  | wait
  deriving DecidableEq

/-- The locked section of the loop of `read`: a request for `len` bytes looks at the pipe once. -/
def pipeRead (id : PipeId) (len : Nat) (s : Vfs) : ReadOutcome × Vfs :=
  match s.pipes.lookup id with
  | none => (.eof, s)
  | some p =>
    if p.buf ≠ [] then
      (.delivered (p.buf.take len), { s with pipes := s.pipes.insert id { p with buf := p.buf.drop len } })
    else if p.writeEnds = 0 then (.eof, s)
    else (.wait, s)

inductive WriteOutcome where
  | accepted (bytes : List UInt8)
  | full
  | broken
  deriving DecidableEq

/-- The locked section of the loop of `write`, with `rest` still to be written. -/
def pipeWrite (id : PipeId) (rest : List UInt8) (s : Vfs) : WriteOutcome × Vfs :=
  match s.pipes.lookup id with
  | none => (.broken, s)
  | some p =>
    if p.readEnds = 0 then (.broken, s)
    else
      let space := pipeCapacity - p.buf.length
      if space = 0 then (.full, s)
      else
        let taken := rest.take space
        (.accepted taken, { s with pipes := s.pipes.insert id { p with buf := p.buf ++ taken } })

end PickleOS.Fs
