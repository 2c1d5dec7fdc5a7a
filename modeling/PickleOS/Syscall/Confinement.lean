import PickleOS.Fs.Fileless
import PickleOS.NextFs.Runs
import PickleOS.Shared.Machine
import PickleOS.Syscall.Dispatch

set_option autoImplicit false

namespace PickleOS.Syscall

open Shared Shared.Machine Shared.Outcome Capabilities Fs

abbrev TaskId := Nat

def holdsRole (caps : Tables) (task : TaskId) (role : UInt64) : Bool :=
  (caps.entry task).any fun slot => slot.any fun cap => cap.object = .role role

structure Caller where
  sys : System
  inside : Option Inside
  ended : Bool

inductive Action where
  | call (env : Surroundings) (frame : SyscallFrame)
  -- The task goes on in the loop that it waits in.
  | resume (env : Surroundings)
  -- What other tasks do in the meantime. The files are let alone, and nobody hands over the role.
  | others (vfs : Vfs) (caps : Tables)

namespace Caller

variable (s : Caller)

def after : Outcome × System → Caller
  | (.returns _, sys) => { s with sys := sys, inside := none }
  | (.waits inside, sys) => { s with sys := sys, inside := some inside }
  | (.never, sys) => { s with sys := sys, inside := none, ended := true }

/-- Only the task itself and its parent, at `fork`, write its table. -/
def withOthers (task : TaskId) (vfs : Vfs) (caps : Tables) : Caller :=
  let fdTables := match s.sys.files.vfs.fdTables.lookup (taskKey task) with
    | some table => vfs.fdTables.insert (taskKey task) table
    | none => vfs.fdTables.erase (taskKey task)
  { s with sys := { files := { s.sys.files with vfs := { vfs with fdTables := fdTables } }, caps := caps } }

end Caller

def step (task : TaskId) (s : Caller) : Action → Option Caller
  | .call env frame =>
    if s.ended = false ∧ s.inside = none ∧ env.tasks.me.map (fun t => (t.id, t.ring)) = some (task, .user) then
      some (s.after (dispatch env task frame s.sys))
    else none
  | .resume env => s.inside.map fun inside => s.after (Syscall.resume env s.sys inside)
  | .others vfs caps => if holdsRole caps task roleFileSystem then none else some (s.withOthers task vfs caps)

def changing : List Number := [.unlink, .rmdir, .mkdir, .truncate, .chmod, .chown]

def Action.namesPath : Action → Bool
  | .call env frame =>
    frame.number.any (· ∈ changing) && !env.refuses frame.rdi frame.rsi &&
      (env.bytes frame.rdi frame.rsi).any Utf8.valid
  | _ => false

def OnlyStreams (vfs : Vfs) (task : TaskId) : Prop :=
  ∀ table, vfs.fdTables.lookup (taskKey task) = some table → ∀ fd file, table.files.lookup fd = some file →
    file.fileType = .console ∨ file.fileType = .keyboard ∨ ∃ id isWrite, file.fileType = .pipe id isWrite

/-- Neither the role nor an open file. -/
structure Confined (task : TaskId) (s : System) : Prop where
  role : holdsRole s.caps task roleFileSystem = false
  fileless : s.files.vfs.Fileless (taskKey task)

section Roles

variable {caps : Tables} {task : TaskId} {role : UInt64}

theorem holdsRole_eq_false :
    holdsRole caps task role = false ↔ ∀ slot cap, caps.lookupSlot task slot = some cap →
      cap.object ≠ .role role := by
  have look : ∀ slot, caps.lookupSlot task slot = (caps.entry task).look slot :=
    fun slot => by rw [Tables.look_entry]
  simp only [holdsRole, List.any_eq_false, look]
  constructor
  · intro none slot cap found same
    have member : some cap ∈ caps.entry task := by
      have here : (caps.entry task)[slot]? = some (some cap) := by
        simpa [Slots.look, Option.join_eq_some_iff] using found
      exact List.mem_of_getElem? here
    exact none (some cap) member (by simp [same])
  · intro none slot member
    cases slot with
    | none => simp
    | some cap =>
      obtain ⟨i, inside, here⟩ := List.mem_iff_getElem.mp member
      have found : (caps.entry task).look i = some cap := by simp [Slots.look, inside, here]
      simpa using none i cap found

theorem permits_of_role {s : System} (none : holdsRole s.caps task role = false) :
    s.permits task role = false := by
  rw [System.permits, Tables.checkRole, ← Bool.not_eq_true, Tables.findObject_isSome]
  rintro ⟨slot, cap, found, _, object⟩
  exact holdsRole_eq_false.mp none slot cap found (by simpa using object)

theorem holdsRole_grant (none : holdsRole caps task role = false)
    {slot : Nat} {rights : Rights} {cap : Capability}
    (granted : caps.grantLookup task slot rights = some cap) (target : TaskId) :
    holdsRole (caps.insertCap target cap).2 task role = false := by
  -- What a task grants has the object of what it holds.
  rw [holdsRole_eq_false] at none ⊢
  have object : cap.object ≠ .role role := by
    unfold Tables.grantLookup at granted
    split at granted
    · cases granted
    next source found =>
      split at granted
      · cases granted
      · cases granted
        exact none slot source found
  intro slot' cap' found
  rw [Tables.lookupSlot_insertCap] at found
  by_cases own : task = target
  · subst own
    by_cases same : slot' = (caps.insertCap task cap).1
    · simp only [Tables.put, Function.update_self, same, Option.some.injEq] at found
      exact found ▸ object
    · simp only [Tables.put, Function.update_self, Function.update_of_ne same] at found
      exact none slot' cap' found
  · simp only [Tables.put, Function.update_of_ne own] at found
    exact none slot' cap' found

end Roles

/-! ### Calls that only read -/

theorem ends_withFs {α : Type} (f : NextFs.Volume → Except NextFs.Fail α) (s : Files) :
    Ends (withFs f) s (fun _ t => t = s) (fun _ t => t = s) := by
  unfold Ends withFs
  cases s.mounted with
  | none => rfl
  | some volume =>
    dsimp only
    cases f volume <;> rfl

theorem ends_stat (path : NextFs.Name) (s : Files) :
    Ends (Fs.stat path) s (fun _ t => t = s) (fun _ t => t = s) := by
  have resolved : Ends (resolvePath path) s (fun _ t => t = s) (fun _ t => t = s) := by
    unfold resolvePath
    split
    · rfl
    · exact ends_withFs _ s
  unfold Fs.stat
  refine Ends.bind resolved ?_
  rintro inode t rfl
  exact ends_withFs _ t

theorem ends_getFile {s : Files} {key : Fs.TaskId} (fileless : s.vfs.Fileless key) (fd : Fd) :
    Ends (getFile key fd) s (fun file t => t = s ∧ ∀ inode, file.fileType ≠ .regular inode)
      (fun _ t => t = s) := by
  unfold getFile
  rw [ends_bind, ends_get]
  cases present : s.vfs.fdTables.lookup key with
  | none => rfl
  | some table =>
    dsimp only
    cases found : table.files.lookup fd with
    | none => rfl
    | some file => exact ⟨rfl, fileless table present fd file found⟩

theorem ends_beginRead {s : Files} {key : Fs.TaskId} (fileless : s.vfs.Fileless key) (fd : Fd) :
    Ends (beginRead key fd) s (fun opened _ => ∀ inode, opened.1 ≠ .regular inode) (fun _ _ => True) := by
  unfold beginRead
  refine Ends.bind ((ends_getFile fileless fd).imp (fun _ _ opened => opened.2) fun _ _ _ => trivial) ?_
  intro file t other
  split
  · exact other
  · trivial

theorem ends_beginWrite {s : Files} {key : Fs.TaskId} (fileless : s.vfs.Fileless key) (fd : Fd) :
    Ends (beginWrite key fd) s (fun opened _ => ∀ inode, opened.1 ≠ .regular inode) (fun _ _ => True) := by
  unfold beginWrite
  refine Ends.bind ((ends_getFile fileless fd).imp (fun _ _ opened => opened.2) fun _ _ _ => trivial) ?_
  intro file t other
  split
  · exact other
  · trivial

theorem ends_seek {s : Files} {key : Fs.TaskId} (fileless : s.vfs.Fileless key) (fd : Fd) (offset : Int64)
    (whence : SeekWhence) :
    Ends (seek key fd offset whence) s (fun _ t => t = s) (fun _ t => t = s) := by
  unfold seek
  refine Ends.bind (ends_getFile fileless fd) ?_
  rintro file t ⟨rfl, other⟩
  split
  next inode regular => exact absurd regular (other inode)
  next => rfl

/-! ### The calls of a confined task -/

structure Keeps (task : TaskId) (s : System) (result : Outcome × System) : Prop where
  mounted : result.2.files.mounted = s.files.mounted
  confined : Confined task result.2

namespace Confined

variable {task : TaskId} {s : System} (confined : Confined task s) (env : Surroundings)
include confined

theorem unchanged (value : UInt64) : Keeps task s (s.unchanged value) := ⟨rfl, confined⟩

theorem withVfs {vfs : Vfs} (fileless : vfs.Fileless (taskKey task)) (outcome : Outcome) :
    Keeps task s (outcome, s.withVfs vfs) :=
  ⟨rfl, confined.role, fileless⟩

theorem onFiles {α : Type} {m : FilesM α} (value : α → UInt64)
    (ends : Ends m s.files (fun _ t => t.mounted = s.files.mounted ∧ t.vfs.Fileless (taskKey task))
      (fun _ t => t.mounted = s.files.mounted ∧ t.vfs.Fileless (taskKey task))) :
        Keeps task s (s.onFiles m value) := by
  unfold Ends at ends
  unfold System.onFiles
  split <;> simp_all only <;> exact ⟨ends.1, confined.role, ends.2⟩

theorem onVfs {α : Type} {m : VfsM α} (value : α → UInt64)
    (ends : Ends m s.files.vfs (fun _ t => t.Fileless (taskKey task)) (fun _ t => t.Fileless (taskKey task))) :
    Keeps task s (s.onFiles (Fs.onVfs m) value) := by
  refine confined.onFiles value ?_
  unfold Ends Fs.onVfs at *
  cases result : m s.files.vfs <;> simp only [result] at ends ⊢ <;> exact ⟨trivial, ends⟩

theorem reads {α : Type} {m : FilesM α} (value : α → UInt64)
    (ends : Ends m s.files (fun _ t => t = s.files) (fun _ t => t = s.files)) :
    Keeps task s (s.onFiles m value) := by
  refine confined.onFiles value (ends.imp ?_ ?_) <;> rintro _ _ rfl <;> exact ⟨rfl, confined.fileless⟩

theorem onPath {call : NextFs.Name → Outcome × System} (ptr len : UInt64)
    (each : ∀ path, Keeps task s (call path)) :
    Keeps task s (s.onPath env ptr len call) := by
  unfold System.onPath
  split
  · exact confined.unchanged _
  · split
    · exact ⟨rfl, confined⟩
    next path _ =>
      split
      · exact each path
      · exact confined.unchanged _

theorem noPath {call : NextFs.Name → Outcome × System} {ptr len : UInt64}
    (none : (!env.refuses ptr len && (env.bytes ptr len).any Utf8.valid) = false) :
      Keeps task s (s.onPath env ptr len call) := by
  -- Nothing happens without a path.
  unfold System.onPath
  split
  · exact confined.unchanged _
  next refused =>
    split
    · exact ⟨rfl, confined⟩
    next path read =>
      have invalid : Utf8.valid path = false := by simpa [refused, read] using none
      rw [invalid]
      exact confined.unchanged _

theorem readPipe (id : PipeId) (len : Nat) : Keeps task s (s.readPipe id len) := by
  have fileless := confined.fileless.pipeRead id len
  unfold System.readPipe
  split <;> simp_all only <;> exact confined.withVfs fileless _

theorem writePipe (id : PipeId) (data : List UInt8) (written : Nat) :
    Keeps task s (s.writePipe id data written) := by
  have fileless := confined.fileless.pipeWrite id (data.drop written)
  unfold System.writePipe
  split <;> simp_all only <;> exact confined.withVfs fileless _

theorem doWait : Keeps task s (s.doWait env) := by
  unfold System.doWait
  split
  · exact confined.unchanged _
  · split
    · exact confined.unchanged _
    · split
      · exact confined.withVfs (confined.fileless.cleanup _) _
      · exact ⟨rfl, confined⟩

theorem sysRead (a0 a1 a2 : UInt64) : Keeps task s (s.sysRead env task a0 a1 a2) := by
  have opened := ends_beginRead confined.fileless (a0.toNat % 2 ^ 32)
  unfold Ends at opened
  unfold System.sysRead
  split
  · exact confined.unchanged _
  · dsimp only
    split <;> simp_all only
    · exact confined.unchanged _
    · exact absurd rfl (opened _)
    · exact confined.unchanged _
    · exact confined.unchanged _
    · split
      · exact confined.unchanged _
      · exact confined.readPipe ..
    · exact confined.unchanged _

theorem sysWrite (a0 a1 a2 : UInt64) : Keeps task s (s.sysWrite env task a0 a1 a2) := by
  have opened := ends_beginWrite confined.fileless (a0.toNat % 2 ^ 32)
  unfold Ends at opened
  unfold System.sysWrite
  split
  · exact confined.unchanged _
  · split
    · exact ⟨rfl, confined⟩
    · dsimp only
      split <;> simp_all only
      · exact confined.unchanged _
      · exact absurd rfl (opened _)
      · exact confined.unchanged _
      · exact confined.unchanged _
      · split
        · exact confined.writePipe ..
        · exact confined.unchanged _
      · exact confined.unchanged _

theorem sysLseek (a0 a1 a2 : UInt64) : Keeps task s (s.sysLseek task a0 a1 a2) := by
  have seeks : ∀ whence, Keeps task s (s.onFiles
    (seek (taskKey task) (a0.toNat % 2 ^ 32) a1.toInt64 whence) id) :=
    fun whence => confined.reads id (ends_seek confined.fileless _ _ whence)
  unfold System.sysLseek
  split
  · exact seeks .set
  · split
    · exact seeks .current
    · split
      · exact seeks .fileEnd
      · exact confined.unchanged _

theorem terminateTask (id : TaskId) : Keeps task s (s.terminateTask env task id) := by
  unfold System.terminateTask
  split
  · exact confined.withVfs (confined.fileless.cleanup _) _
  · split
    · exact confined.unchanged _
    · split
      · exact confined.unchanged _
      · exact confined.withVfs (confined.fileless.cleanup _) _

theorem doKill (pid : TaskId) (sig : UInt32) : Keeps task s (s.doKill env task pid sig) := by
  have same := confined.unchanged
  have ends := confined.terminateTask env pid
  unfold System.doKill
  repeat' split
  all_goals first | exact same _ | exact ends

theorem sysBind (a0 a1 a2 : UInt64) : Keeps task s (s.sysBind env task a0 a1 a2) := by
  unfold System.sysBind
  split
  · exact confined.unchanged _
  · split
    · exact confined.unchanged _
    · split
      · split
        · exact confined.unchanged _
        · split
          next vfs bound => exact confined.withVfs (confined.fileless.tcpBind bound) _
          next => exact confined.unchanged _
      · exact ⟨rfl, confined⟩

theorem sysCapGrant (a0 a1 a2 : UInt64) : Keeps task s (s.sysCapGrant task a0 a1 a2) := by
  unfold System.sysCapGrant
  split
  · exact confined.unchanged _
  · split
    · exact confined.unchanged _
    next cap granted => exact ⟨rfl, holdsRole_grant confined.role granted _, confined.fileless⟩

theorem dispatch (f : SyscallFrame) (quiet : (Action.call env f).namesPath = false) :
    Keeps task s (dispatch env task f s) := by
  have denied := permits_of_role confined.role
  -- Those that change the tree get no path.
  have noPath : ∀ number ∈ changing, f.number = some number → ∀ call,
    Keeps task s (s.onPath env f.rdi f.rsi call) := by
    intro number member found call
    refine confined.noPath env ?_
    simpa [Action.namesPath, found, member] using quiet
  unfold Syscall.dispatch
  cases found : f.number with
  | none => exact confined.unchanged _
  | some number =>
    cases number with
    | «open» =>
      simp only [System.sysOpen, denied, Bool.not_false, if_true]
      exact confined.unchanged _
    | exec =>
      simp only [System.sysExec, denied, Bool.not_false, if_true]
      exact confined.unchanged _
    | exit => exact confined.withVfs (confined.fileless.cleanup _) _
    | read => exact confined.sysRead ..
    | write => exact confined.sysWrite ..
    | close => exact confined.onVfs _ (confined.fileless.close ..)
    | lseek => exact confined.sysLseek ..
    | unlink => exact noPath .unlink (by decide) found _
    | rmdir => exact noPath .rmdir (by decide) found _
    | mkdir => exact noPath .mkdir (by decide) found _
    | truncate => exact noPath .truncate (by decide) found _
    | chmod => exact noPath .chmod (by decide) found _
    | chown => exact noPath .chown (by decide) found _
    | stat =>
      dsimp only
      unfold System.sysStat
      split
      · exact confined.unchanged _
      · exact confined.onPath env _ _ fun path => confined.reads _ (ends_stat path _)
    | wait =>
      dsimp only
      unfold System.sysWait
      split
      · exact confined.unchanged _
      · exact confined.doWait env
    | fork =>
      dsimp only
      unfold System.sysFork
      split
      · exact confined.unchanged _
      · split
        · exact confined.unchanged _
        · exact confined.withVfs (confined.fileless.clone _) _
    | pipe =>
      dsimp only
      unfold System.sysPipe
      split
      · exact confined.unchanged _
      · split
        · exact confined.unchanged _
        · exact confined.onVfs _ (confined.fileless.pipe _)
    | kill =>
      dsimp only
      unfold System.sysKill
      split
      · exact confined.unchanged _
      · exact confined.doKill ..
    | socket =>
      dsimp only
      unfold System.sysSocket
      split
      · exact confined.unchanged _
      · split
        · exact confined.unchanged _
        · exact confined.onVfs _ (confined.fileless.sysSocket _)
    | bind => exact confined.sysBind ..
    | capGrant => exact confined.sysCapGrant ..
    | _ => exact confined.unchanged _

theorem resume (inside : Inside) : Keeps task s (resume env s inside) := by
  cases inside with
  | reading id len => exact confined.readPipe id len
  | writing id data written => exact confined.writePipe id data written
  | waiting => exact confined.doWait env

end Confined

theorem after_sys (s : Caller) (result : Outcome × System) : (s.after result).sys = result.2 := by
  obtain ⟨outcome, sys⟩ := result
  cases outcome <;> rfl

theorem confined_others {task : TaskId} {s : Caller} (confined : Confined task s.sys)
    {vfs : Vfs} {caps : Tables}
    (role : holdsRole caps task roleFileSystem = false) : Confined task (s.withOthers task vfs caps).sys := by
  refine ⟨role, fun table found => ?_⟩
  cases own : s.sys.files.vfs.fdTables.lookup (taskKey task) with
  | none => simp [Caller.withOthers, own] at found
  | some table' =>
    simp only [Caller.withOthers, own, AList.lookup_insert, Option.some.injEq] at found
    exact found ▸ confined.fileless table' own

theorem step_keeps {task : TaskId} {s t : Caller} {a : Action} (confined : Confined task s.sys)
    (quiet : a.namesPath = false)
    (taken : step task s a = some t) : t.sys.files.mounted = s.sys.files.mounted ∧ Confined task t.sys := by
  cases a with
  | call env frame =>
    simp only [step, Option.ite_none_right_eq_some, Option.some.injEq] at taken
    obtain ⟨_, rfl⟩ := taken
    have kept := confined.dispatch env frame quiet
    rw [after_sys]
    exact ⟨kept.mounted, kept.confined⟩
  | resume env =>
    simp only [step, Option.map_eq_some_iff] at taken
    obtain ⟨inside, _, rfl⟩ := taken
    have kept := confined.resume env inside
    rw [after_sys]
    exact ⟨kept.mounted, kept.confined⟩
  | others vfs caps =>
    simp only [step, Option.ite_none_left_eq_some, Option.some.injEq, Bool.not_eq_true] at taken
    obtain ⟨role, rfl⟩ := taken
    exact ⟨rfl, confined_others confined role⟩

/-- A task that has neither the role nor a file leaves the contents of the file system alone as long
as it makes no call for a change under a path that can be read; `SYS_OPEN` and `SYS_EXEC` are
refused. -/
theorem contents_kept {task : TaskId} {start s : Caller}
    (role : holdsRole start.sys.caps task roleFileSystem = false)
    (streams : OnlyStreams start.sys.files.vfs task)
    (run : Reaches (step task) (fun _ a => a.namesPath = false) start s) :
    s.sys.files.mounted = start.sys.files.mounted ∧
      ∀ env frame, frame.number = some .open ∨ frame.number = some .exec →
        dispatch env task frame s.sys = (.returns failure, s.sys) := by
  have fileless : start.sys.files.vfs.Fileless (taskKey task) := by
    intro table present fd file found inode regular
    obtain console | keyboard | ⟨id, isWrite, pipe⟩ := streams table present fd file found <;> simp_all
  have kept : s.sys.files.mounted = start.sys.files.mounted ∧ Confined task s.sys := by
    induction run with
    | start => exact ⟨rfl, role, fileless⟩
    | step _ quiet taken ih =>
      obtain ⟨same, confined⟩ := step_keeps ih.2 quiet taken
      exact ⟨same.trans ih.1, confined⟩
  refine ⟨kept.1, fun env frame number => ?_⟩
  have denied := permits_of_role kept.2.role
  unfold dispatch
  obtain number | number := number
  · simp [number, System.sysOpen, denied, System.unchanged]
  · simp [number, System.sysExec, denied, System.unchanged]

/-- A user task on a new volume, without capabilities. -/
def newcomer : Caller where
  sys := { files := { mounted := some NextFs.smallVolume, vfs := Vfs.initial.initTaskFds 1 }, caps := ∅ }
  inside := none
  ended := false

/-- The task is current, and has a `/` at 0x40_0000. -/
def calm : Surroundings where
  tasks := { Tasks.Scheduler.initial with tasks :=
    [{ id := 1, state := .running, ring := .user, userCr3 := some 7 }] }
  handlers _ _ := 0
  load addr := if addr = 0x40_0000 then some slash else none
  now := 0
  answer := 0

theorem newcomer_streams : OnlyStreams newcomer.sys.files.vfs 1 := by
  intro table present fd file found
  have standard : table = .standard := by
    simpa [newcomer, Vfs.initTaskFds, taskKey, eq_comm] using present
  subst standard
  simp only [FdTable.standard, Map.lookup_insert_eq] at found
  split at found
  · cases found
    exact .inl rfl
  · split at found
    · cases found
      exact .inl rfl
    · split at found
      · cases found
        exact .inr (.inl rfl)
      · simp at found

theorem contents_kept_newcomer :
    ∃ s, replay (step 1) (fun _ a => a.namesPath = false) newcomer
        [.call calm { rax := 29, rdi := 0x50_0000, rsi := 0, rdx := 0 },
        .call calm { rax := 13, rdi := 0x40_0000, rsi := 1, rdx := 0x41 },
          .call calm { rax := 15, rdi := 4, rsi := 0x40_0000, rdx := 1 }] = some s ∧
      s.sys.files.mounted = some NextFs.smallVolume := by
  obtain ⟨s, done⟩ := Option.isSome_iff_exists.mp
    (show (replay (step 1) (fun _ a => a.namesPath = false) newcomer
    [.call calm { rax := 29, rdi := 0x50_0000, rsi := 0, rdx := 0 },
    .call calm { rax := 13, rdi := 0x40_0000, rsi := 1, rdx := 0x41 },
      .call calm { rax := 15, rdi := 4, rsi := 0x40_0000, rdx := 1 }]).isSome by decide)
  exact ⟨s, done, (contents_kept rfl newcomer_streams (.of_replay (fun _ _ => id) .start done)).1⟩

/-- `SYS_CHMOD` on the root directory. -/
theorem root_opened :
    (newcomer.sys.files.mounted.map fun fs => (fs.inode 1).mode) = some 0o755 ∧
      ((step 1 newcomer (.call calm { rax := 22, rdi := 0x40_0000, rsi := 1, rdx := 0o777 })).bind fun s =>
        s.sys.files.mounted.map fun fs => (fs.inode 1).mode) = some 0o777 ∧
      holdsRole newcomer.sys.caps 1 roleFileSystem = false ∧ OnlyStreams newcomer.sys.files.vfs 1 :=
  ⟨by decide +kernel, by decide +kernel, rfl, newcomer_streams⟩

end PickleOS.Syscall
