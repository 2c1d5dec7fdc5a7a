import PickleOS.Capabilities.Model
import PickleOS.Fs.Paths
import PickleOS.Shared.Utf8
import PickleOS.Tasks.Table

set_option autoImplicit false

/-!
# The dispatcher of the system calls

What each call does to the files, the descriptors and the capabilities. Of the rest of the kernel
only the answers are seen.
-/

namespace PickleOS.Syscall

open Shared Capabilities Fs

inductive Number where
  | print
  | getpid
  | exit
  | yield
  | ticks
  | ipcSend
  | ipcRecv
  | capCheck
  | sleep
  | spawn
  | mmap
  | munmap
  | open
  | read
  | write
  | close
  | lseek
  | unlink
  | rmdir
  | mkdir
  | truncate
  | chmod
  | chown
  | stat
  | wait
  | exec
  | fork
  | pipe
  | getppid
  | kill
  | signal
  | sigreturn
  | winCreate
  | winCommit
  | winPoll
  | winDestroy
  | winInfo
  | socket
  | bind
  | connect
  | listen
  | accept
  | send
  | recv
  | shutdown
  | capGrant
  deriving DecidableEq

/-- The `SYS_` constants. -/
def Number.constants : List (UInt64 × Number) :=
  [(1, print), (2, getpid), (3, exit), (4, yield), (5, ticks), (6, ipcSend), (7, ipcRecv), (8, capCheck),
  (9, sleep),
    (10, spawn), (11, mmap), (12, munmap), (13, .open), (14, read), (15, write), (16, close), (17, lseek),
    (18, unlink),
    (19, rmdir), (20, mkdir), (21, truncate), (22, chmod), (23, chown), (24, stat), (25, exit),
    (26, wait), (27, exec),
    (28, fork), (29, pipe), (30, getppid), (31, kill), (32, signal), (33, sigreturn), (34, winCreate),
    (35, winCommit),
    (36, winPoll), (37, winDestroy), (38, winInfo), (39, socket), (40, bind), (41, connect), (42, listen),
    (43, accept),
    (44, send), (45, recv), (46, shutdown), (47, capGrant)]

structure SyscallFrame where
  rax : UInt64
  rdi : UInt64
  rsi : UInt64
  rdx : UInt64
  r10 : UInt64 := 0

def SyscallFrame.number (f : SyscallFrame) : Option Number := Number.constants.lookup f.rax

/-- What a call finds in the rest of the kernel. -/
structure Surroundings where
  tasks : Tasks.Scheduler
  -- The signal dispositions of the tasks.
  handlers : Tasks.TaskId → UInt32 → UInt64
  -- What a load at an address of the task gets; `none` is a page fault, after which the call does not go on.
  load : UInt64 → Option UInt8
  now : UInt32
  -- What a service answers that has nothing to do with files, descriptors and capabilities.
  answer : UInt64

structure System where
  files : Files
  caps : Tables

/-- A loop of a call that looks again after the next switch. -/
inductive Inside where
  | reading (id : PipeId) (len : Nat)
  | writing (id : PipeId) (data : List UInt8) (written : Nat)
  | waiting
  deriving DecidableEq

inductive Outcome where
  | returns (value : UInt64)
  | waits (inside : Inside)
  -- The task has ended, or the kernel has.
  | never
  deriving DecidableEq

/-- `u64::MAX`. -/
def failure : UInt64 := 0xFFFF_FFFF_FFFF_FFFF

def isUserPointer (ptr len : UInt64) : Bool :=
  let userSpaceMax := 0x0000_8000_0000_0000
  if userSpaceMax ≤ ptr.toNat then false
  else if ptr.toNat + len.toNat < 2 ^ 64 then ptr.toNat + len.toNat ≤ userSpaceMax
  else false

namespace Surroundings

variable (env : Surroundings)

/-- Only a caller in ring 3 has its pointers checked. -/
def refuses (ptr len : UInt64) : Bool := env.tasks.me.map (·.ring) = some .user && !isUserPointer ptr len

def bytes (ptr len : UInt64) : Option (List UInt8) :=
  (List.range len.toNat).mapM fun i => env.load (ptr + UInt64.ofNat i)

end Surroundings

namespace System

variable (s : System)

def unchanged (value : UInt64) : Outcome × System := (.returns value, s)

/-- A call of the file system layer, and the value that is made of its result. -/
def onFiles {α : Type} (m : FilesM α) (value : α → UInt64) : Outcome × System :=
  match m s.files with
  | .ok a files => (.returns (value a), { s with files := files })
  | .error (.vfs (.error _)) files => (.returns failure, { s with files := files })
  | .error (.vfs .hang) files | .error .panic files => (.never, { s with files := files })

def onPath (env : Surroundings) (ptr len : UInt64) (call : NextFs.Name → Outcome × System) : Outcome × System :=
  if env.refuses ptr len then s.unchanged failure
  else
    match env.bytes ptr len with
    | none => (.never, s)
    | some path => if Utf8.valid path then call path else s.unchanged failure

def withVfs (vfs : Vfs) : System := { s with files := { s.files with vfs := vfs } }

/-- `check_role` with the right to send. -/
def permits (task : Capabilities.TaskId) (role : UInt64) : Bool := s.caps.checkRole task role .send

/-! ### Pipes -/

def readPipe (id : PipeId) (len : Nat) : Outcome × System :=
  match pipeRead id len s.files.vfs with
  | (.delivered bytes, vfs) => (.returns (UInt64.ofNat bytes.length), s.withVfs vfs)
  | (.eof, vfs) => (.returns 0, s.withVfs vfs)
  | (.wait, vfs) => (.waits (.reading id len), s.withVfs vfs)

/-- The end of `write` on a pipe. -/
def wrote (data : List UInt8) (written : Nat) : UInt64 :=
  if written = 0 ∧ data ≠ [] then failure else UInt64.ofNat written

/-- One look of the loop of `write`. After a part that fills the pipe the loop looks again. -/
def writePipe (id : PipeId) (data : List UInt8) (written : Nat) : Outcome × System :=
  match pipeWrite id (data.drop written) s.files.vfs with
  | (.broken, vfs) => (.returns (wrote data written), s.withVfs vfs)
  | (.full, vfs) =>
    (if data.length ≤ written then .returns (wrote data written) else .waits (.writing id data written),
    s.withVfs vfs)
  | (.accepted bytes, vfs) =>
    let written := written + bytes.length
    (if data.length ≤ written then .returns (wrote data written) else .waits (.writing id data written),
    s.withVfs vfs)

/-! ### The calls -/

def openFlagsFromRaw (raw : UInt64) : OpenFlags :=
  let accessMode := raw &&& 3
  { read := accessMode = 0 || accessMode = 2
    write := accessMode = 1 || accessMode = 2
    create := raw &&& 0x40 ≠ 0
    truncate := raw &&& 0x200 ≠ 0
    append := raw &&& 0x400 ≠ 0 }

def sysOpen (env : Surroundings) (caller : Capabilities.TaskId) (a0 a1 a2 : UInt64) : Outcome × System :=
  if !s.permits caller roleFileSystem then s.unchanged failure
  else
    s.onPath env a0 a1 fun path =>
      s.onFiles (openFile env.now (taskKey caller) path (openFlagsFromRaw a2)) UInt64.ofNat

/-- What is stored in the buffer is left out. -/
def sysRead (env : Surroundings) (caller : Capabilities.TaskId) (a0 a1 a2 : UInt64) : Outcome × System :=
  if env.refuses a1 a2 then s.unchanged failure
  else
    let fd := a0.toNat % 2 ^ 32
    match beginRead (taskKey caller) fd s.files with
    | .error _ _ => s.unchanged failure
    | .ok (.regular inode, pos) _ =>
      s.onFiles (readRegular (taskKey caller) fd inode pos a2.toNat) fun bytes => UInt64.ofNat bytes.length
    | .ok (.keyboard, _) _ => s.unchanged env.answer
    | .ok (.console, _) _ => s.unchanged failure
    | .ok (.pipe id isWrite, _) _ => if isWrite then s.unchanged failure else s.readPipe id a2.toNat
    | .ok (.socket _, _) _ => s.unchanged env.answer

def sysWrite (env : Surroundings) (caller : Capabilities.TaskId) (a0 a1 a2 : UInt64) : Outcome × System :=
  if env.refuses a1 a2 then s.unchanged failure
  else
    match env.bytes a1 a2 with
    | none => (.never, s)
    | some data =>
      let fd := a0.toNat % 2 ^ 32
      match beginWrite (taskKey caller) fd s.files with
      | .error _ _ => s.unchanged failure
      | .ok (.regular inode, pos) _ =>
        s.onFiles (writeRegular env.now (taskKey caller) fd inode pos data) UInt64.ofNat
      | .ok (.keyboard, _) _ => s.unchanged failure
      | .ok (.console, _) _ => s.unchanged a2
      | .ok (.pipe id isWrite, _) _ => if isWrite then s.writePipe id data 0 else s.unchanged failure
      | .ok (.socket _, _) _ => s.unchanged env.answer

def sysLseek (caller : Capabilities.TaskId) (a0 a1 a2 : UInt64) : Outcome × System :=
  let seeks whence := s.onFiles (seek (taskKey caller) (a0.toNat % 2 ^ 32) a1.toInt64 whence) id
  if a2 = 0 then seeks .set
  else if a2 = 1 then seeks .current
  else if a2 = 2 then seeks .fileEnd
  else s.unchanged failure

def sysUnlink (env : Surroundings) (caller : Capabilities.TaskId) (a0 a1 : UInt64) : Outcome × System :=
  s.onPath env a0 a1 fun path => s.onFiles (Fs.unlink env.now (taskKey caller) path) fun _ => 0

def sysRmdir (env : Surroundings) (caller : Capabilities.TaskId) (a0 a1 : UInt64) : Outcome × System :=
  s.onPath env a0 a1 fun path => s.onFiles (Fs.rmdir (taskKey caller) path) fun _ => 0

def sysMkdir (env : Surroundings) (caller : Capabilities.TaskId) (a0 a1 : UInt64) : Outcome × System :=
  s.onPath env a0 a1 fun path => s.onFiles (Fs.mkdir env.now (taskKey caller) path) fun _ => 0

def sysTruncate (env : Surroundings) (caller : Capabilities.TaskId) (a0 a1 a2 : UInt64) : Outcome × System :=
  s.onPath env a0 a1 fun path => s.onFiles (Fs.truncate (taskKey caller) path a2) fun _ => 0

def sysChmod (env : Surroundings) (caller : Capabilities.TaskId) (a0 a1 a2 : UInt64) : Outcome × System :=
  s.onPath env a0 a1 fun path => s.onFiles (Fs.chmod env.now (taskKey caller) path a2.toUInt16) fun _ => 0

def sysChown (env : Surroundings) (caller : Capabilities.TaskId) (a0 a1 a2 : UInt64) : Outcome × System :=
  let uid := ((a2 >>> 16) &&& 0xFFFF).toUInt16
  let gid := (a2 &&& 0xFFFF).toUInt16
  s.onPath env a0 a1 fun path => s.onFiles (Fs.chown env.now (taskKey caller) path uid gid) fun _ => 0

/-- What is stored in the caller's buffer is left out. -/
def sysStat (env : Surroundings) (a0 a1 a2 : UInt64) : Outcome × System :=
  if env.refuses a2 24 then s.unchanged failure
  else s.onPath env a0 a1 fun path => s.onFiles (Fs.stat path) fun _ => 0

/-- One turn of the loop of `do_wait`. -/
def doWait (env : Surroundings) : Outcome × System :=
  match env.tasks.me with
  | none => s.unchanged failure
  | some t =>
    if t.children = [] then s.unchanged failure
    else
      match t.children.find? env.tasks.isZombie with
      | some cid => (.returns (UInt64.ofNat cid), s.withVfs (s.files.vfs.cleanupTaskFds (taskKey cid)))
      | none => (.waits .waiting, s)

def sysWait (env : Surroundings) (a0 : UInt64) : Outcome × System :=
  if a0 ≠ 0 && env.refuses a0 4 then s.unchanged failure else s.doWait env

/-- `do_exec` reads the program from a file, and nothing else in the files and descriptors is different
after it. -/
def sysExec (env : Surroundings) (caller : Capabilities.TaskId) (a0 a1 : UInt64) : Outcome × System :=
  if !s.permits caller roleFileSystem then s.unchanged failure
  else s.onPath env a0 a1 fun _ => s.unchanged env.answer

def sysFork (env : Surroundings) (caller : Capabilities.TaskId) : Outcome × System :=
  if !s.permits caller roleSpawn then s.unchanged failure
  else if (env.tasks.me.bind (·.userCr3)).isNone then s.unchanged failure
  else
    (.returns (UInt64.ofNat env.tasks.nextId),
      s.withVfs (s.files.vfs.cloneTaskFds (taskKey caller) (taskKey env.tasks.nextId)))

/-- The two descriptors are stored in the caller's memory, which is left out. -/
def sysPipe (env : Surroundings) (caller : Capabilities.TaskId) (a0 : UInt64) : Outcome × System :=
  if env.refuses a0 8 then s.unchanged failure
  else if a0 = 0 then s.unchanged failure
  else s.onFiles (onVfs (Fs.pipe (taskKey caller))) fun _ => 0

def doExit (caller : Capabilities.TaskId) : Outcome × System :=
  (.never, s.withVfs (s.files.vfs.cleanupTaskFds (taskKey caller)))

def terminateTask (env : Surroundings) (caller id : Capabilities.TaskId) : Outcome × System :=
  if id = caller then s.doExit caller
  else
    match env.tasks.find id with
    | none => s.unchanged 0
    | some t =>
      if t.state = .zombie ∨ t.state = .dead then s.unchanged 0
      else (.returns 0, s.withVfs (s.files.vfs.cleanupTaskFds (taskKey id)))

/-- `SIGCHLD`, `SIGCONT`, `SIGURG`, `SIGWINCH`, `SIGIO`, `SIGSTOP`, `SIGTSTP`, `SIGTTIN` and `SIGTTOU` do
not terminate. -/
def defaultTerminates (sig : UInt32) : Bool := sig ∉ [17, 18, 23, 28, 29, 19, 20, 21, 22]

def maySignal (env : Surroundings) (caller pid : Capabilities.TaskId) : Bool :=
  match env.tasks.me with
  | none => false
  | some t =>
    t.ring = .kernel || caller = pid || pid ∈ t.children ||
      env.tasks.tasks.any (fun c => c.id = pid ∧ c.parent = some caller) || env.tasks.initTaskId = some caller

def doKill (env : Surroundings) (caller pid : Capabilities.TaskId) (sig : UInt32) : Outcome × System :=
  if 32 ≤ sig.toNat then s.unchanged failure
  else if !maySignal env caller pid then s.unchanged failure
  else
    match env.tasks.find pid with
    | none => s.unchanged failure
    | some t =>
      if t.state = .zombie ∨ t.state = .dead then s.unchanged 0
      else if sig = 0 then s.unchanged 0
      else if sig = 9 then s.terminateTask env caller pid
      else if env.handlers pid sig = 1 then s.unchanged 0
      else if env.handlers pid sig = 0 then
        if defaultTerminates sig then s.terminateTask env caller pid else s.unchanged 0
      -- The signal is left pending.
      else s.unchanged 0

def sysKill (env : Surroundings) (caller : Capabilities.TaskId) (a0 a1 : UInt64) : Outcome × System :=
  if !s.permits caller roleKill then s.unchanged failure else s.doKill env caller a0.toNat a1.toUInt32

def sysSocket (caller : Capabilities.TaskId) (a0 a1 : UInt64) : Outcome × System :=
  if !s.permits caller roleNetwork then s.unchanged failure
  else if a0 ≠ 2 ∨ a1 ≠ 1 then s.unchanged failure
  else s.onFiles (onVfs (Fs.sysSocket (taskKey caller))) UInt64.ofNat

def socketId (caller : Capabilities.TaskId) (fd : Fd) : Option SocketId :=
  (s.files.vfs.fdTables.lookup (taskKey caller)).bind fun table =>
    (table.files.lookup fd).bind fun file => match file.fileType with | .socket id => some id | _ => none

def sysBind (env : Surroundings) (caller : Capabilities.TaskId) (a0 a1 a2 : UInt64) : Outcome × System :=
  if env.refuses a1 a2 then s.unchanged failure
  else if a2 < 8 then s.unchanged failure
  else
    match env.load (a1 + 2), env.load (a1 + 3) with
    | some high, some low =>
      match s.socketId caller (a0.toNat % 2 ^ 32) with
      | none => s.unchanged failure
      | some id =>
        match s.files.vfs.tcpBind id (high.toUInt16 <<< 8 ||| low.toUInt16) with
        | some vfs => (.returns 0, s.withVfs vfs)
        | none => s.unchanged failure
    | _, _ => (.never, s)

def sysCapCheck (caller : Capabilities.TaskId) (a0 a1 : UInt64) : Outcome × System :=
  s.unchanged (if s.caps.check caller a0.toNat ⟨a1.toUInt32⟩ then 1 else 0)

def sysCapGrant (caller : Capabilities.TaskId) (a0 a1 a2 : UInt64) : Outcome × System :=
  if !s.caps.check caller a1.toNat .grant then s.unchanged failure
  else
    match s.caps.grantLookup caller a1.toNat ⟨a2.toUInt32⟩ with
    | none => s.unchanged failure
    | some cap =>
      let (slot, caps) := s.caps.insertCap a0.toNat cap
      (.returns (UInt64.ofNat slot), { s with caps := caps })

end System

/-- `syscall_dispatch_inner`, for a task that runs. -/
def dispatch (env : Surroundings) (caller : Capabilities.TaskId) (f : SyscallFrame) (s : System) :
    Outcome × System :=
  match f.number with
  | none => s.unchanged failure
  | some number =>
    match number with
    | .getpid => s.unchanged (UInt64.ofNat caller)
    | .exit => s.doExit caller
    | .yield | .sleep => s.unchanged 0
    | .capCheck => s.sysCapCheck caller f.rdi f.rsi
    | .spawn => s.unchanged failure
    | .open => s.sysOpen env caller f.rdi f.rsi f.rdx
    | .read => s.sysRead env caller f.rdi f.rsi f.rdx
    | .write => s.sysWrite env caller f.rdi f.rsi f.rdx
    | .close => s.onFiles (onVfs (Fs.close (taskKey caller) (f.rdi.toNat % 2 ^ 32))) fun _ => 0
    | .lseek => s.sysLseek caller f.rdi f.rsi f.rdx
    | .unlink => s.sysUnlink env caller f.rdi f.rsi
    | .rmdir => s.sysRmdir env caller f.rdi f.rsi
    | .mkdir => s.sysMkdir env caller f.rdi f.rsi
    | .truncate => s.sysTruncate env caller f.rdi f.rsi f.rdx
    | .chmod => s.sysChmod env caller f.rdi f.rsi f.rdx
    | .chown => s.sysChown env caller f.rdi f.rsi f.rdx
    | .stat => s.sysStat env f.rdi f.rsi f.rdx
    | .wait => s.sysWait env f.rdi
    | .exec => s.sysExec env caller f.rdi f.rsi
    | .fork => s.sysFork env caller
    | .pipe => s.sysPipe env caller f.rdi
    | .kill => s.sysKill env caller f.rdi f.rsi
    | .socket => s.sysSocket caller f.rdi f.rsi
    | .bind => s.sysBind env caller f.rdi f.rsi f.rdx
    | .capGrant => s.sysCapGrant caller f.rdi f.rsi f.rdx
    -- Messages, memory, signals, windows and the traffic of sockets.
    | .print | .ticks | .ipcSend | .ipcRecv | .mmap | .munmap | .getppid | .signal | .sigreturn
      | .winCreate | .winCommit
    | .winPoll | .winDestroy | .winInfo | .connect | .listen | .accept | .send | .recv | .shutdown =>
      s.unchanged env.answer

def resume (env : Surroundings) (s : System) : Inside → Outcome × System
  | .reading id len => s.readPipe id len
  | .writing id data written => s.writePipe id data written
  | .waiting => s.doWait env

end PickleOS.Syscall
