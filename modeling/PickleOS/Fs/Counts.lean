import PickleOS.Fs.Descriptors
import PickleOS.Shared.Machine
import Mathlib.Data.Nat.Init

set_option autoImplicit false

namespace PickleOS.Fs

open Shared

inductive Action where
  /-- A task is spawned with a new id. -/
  | init (task : TaskId)
  /-- `open` succeeds in everything but perhaps in finding a descriptor. -/
  | opened (task : TaskId) (inode : UInt32) (flags : OpenFlags) (pos : UInt64)
  | pipe (task : TaskId)
  | socket (task : TaskId)
  | close (task : TaskId) (fd : Fd)
  /-- `fork` into a new id. -/
  | clone (parent child : TaskId)
  | cleanup (task : TaskId)
  /-- A look at a pipe by some task that is inside `read`. -/
  | read (id : PipeId) (len : Nat)
  /-- A look at a pipe by some task that is inside `write`. -/
  | write (id : PipeId) (rest : List UInt8)

/-- The state after a call, whether it succeeds or not; a call that hangs leads nowhere. -/
def after {α : Type} (m : VfsM α) (s : Vfs) : Option Vfs :=
  match m s with
  | .ok _ t => some t
  | .error (.error _) t => some t
  | .error .hang _ => none

theorem after_ends {α : Type} {m : VfsM α} {s t : Vfs} {holds : Vfs → Prop}
    (ends : Outcome.Ends m s (fun _ t => holds t) (fun _ t => holds t)) (done : after m s = some t) :
      holds t := by
  unfold Outcome.Ends at ends
  unfold after at done
  split at done <;> simp_all

def step (s : Vfs) : Action → Option Vfs
  | .init task => if (s.fdTables.lookup task).isNone then some (s.initTaskFds task) else none
  | .opened task inode flags pos => after (allocFd task { fileType := .regular inode, flags, pos }) s
  | .pipe task => after (pipe task) s
  | .socket task => after (sysSocket task) s
  | .close task fd => after (close task fd) s
  | .clone parent child =>
    if (s.fdTables.lookup child).isNone then some (s.cloneTaskFds parent child) else none
  | .cleanup task => some (s.cleanupTaskFds task)
  | .read id len => some (pipeRead id len s).2
  | .write id rest => some (pipeWrite id rest s).2

abbrev Reachable (s : Vfs) : Prop := Shared.Machine.Reaches step (fun _ _ => True) .initial s

def refersTo (x : FileType) (file : OpenFile) : Nat := if file.fileType = x then 1 else 0

def FdTable.count (x : FileType) (table : FdTable) : Nat := Map.total (refersTo x) table.files

/-- The number of descriptors in the tables of all tasks that refer to `x`. -/
def Vfs.count (s : Vfs) (x : FileType) : Nat := Map.total (FdTable.count x) s.fdTables

theorem nextTry_lt (fd : Nat) : nextTry fd < 64 := by
  unfold nextTry maxFdsPerTask
  split <;> omega

theorem nextTry_iterate {fd : Nat} (low : 3 ≤ fd) (high : fd < 64) (n : Nat) :
    nextTry^[n] fd = 3 + (fd - 3 + n) % 61 := by
  induction n with
  | zero =>
    simp only [Function.iterate_zero, id]
    omega
  | succ n ih =>
    rw [Function.iterate_succ_apply', ih]
    unfold nextTry maxFdsPerTask
    split <;> omega

theorem search_eq_none (files : Map Fd OpenFile) (n : Nat) (fd : Fd) :
    search files n fd = none ↔ ∀ i < n, (files.lookup (nextTry^[i] fd)).isSome := by
  induction n generalizing fd with
  | zero => simp [search]
  | succ n ih =>
    by_cases taken : (files.lookup fd).isSome
    · simp only [search, taken, if_true, ih]
      constructor
      · intro rest i inside
        cases i with
        | zero => exact taken
        | succ i => exact rest i (by omega)
      · intro all i inside
        exact all (i + 1) (by omega)
    · simp only [search, taken, Bool.false_eq_true, if_false, reduceCtorEq, false_iff]
      intro all
      exact taken (all 0 (by omega))

theorem search_some {files : Map Fd OpenFile} {n : Nat}
    {start fd : Fd} (found : search files n start = some fd) :
    files.lookup fd = none := by
  induction n generalizing start with
  | zero => simp [search] at found
  | succ n ih =>
    simp only [search] at found
    split at found
    next => exact ih found
    next free =>
      cases found
      simpa using free

theorem FdTable.allocFd_ok {table table' : FdTable} {file : OpenFile} {fd : Fd}
    (done : table.allocFd file = .ok (fd, table')) :
    table.files.lookup fd = none ∧ table'.files = table.files.insert fd file := by
  unfold FdTable.allocFd at done
  split at done
  next => cases done
  next =>
    split at done
    next => cases done
    next fd' found =>
      cases done
      exact ⟨search_some found, rfl⟩

def Vfs.NoRoom (s : Vfs) (task : TaskId) : Prop :=
  ∀ table, s.fdTables.lookup task = some table → maxFdsPerTask ≤ table.files.entries.length

section AllocFd

variable {s t : Vfs} {task : TaskId} {file : OpenFile} {fd : Fd}

theorem allocFd_ok (done : allocFd task file s = .ok fd t) :
    ∃ table table' : FdTable, s.fdTables.lookup task = some table ∧ table.files.lookup fd = none ∧
      table'.files = table.files.insert fd file ∧ t = { s with fdTables := s.fdTables.insert task table' } := by
  unfold allocFd at done
  cases present : s.fdTables.lookup task with
  | none => simp [present] at done
  | some table =>
    cases allocated : table.allocFd file with
    | error stop => simp [present, allocated] at done
    | ok result =>
      obtain ⟨fd', table'⟩ := result
      simp only [present, allocated, EStateM.Result.ok.injEq] at done
      obtain ⟨rfl, rfl⟩ := done
      obtain ⟨free, files⟩ := FdTable.allocFd_ok allocated
      exact ⟨table, table', rfl, free, files, rfl⟩

theorem allocFd_error {stop : Stop} (failed : allocFd task file s = .error stop t) : t = s := by
  unfold allocFd at failed
  cases present : s.fdTables.lookup task with
  | none =>
    simp only [present, EStateM.Result.error.injEq] at failed
    exact failed.2.symm
  | some table =>
    cases allocated : table.allocFd file with
    | error stop' =>
      simp only [present, allocated, EStateM.Result.error.injEq] at failed
      exact failed.2.symm
    | ok result => simp [present, allocated] at failed

theorem ends_allocFd (task : TaskId) (file : OpenFile) (s : Vfs) :
    Outcome.Ends (allocFd task file) s (fun fd t => allocFd task file s = .ok fd t) (fun _ t => t = s) := by
  unfold Outcome.Ends
  split
  next done => exact done
  next failed => exact allocFd_error failed

theorem ends_allocFd_room (task : TaskId) (file : OpenFile) (s : Vfs) :
    Outcome.Ends (allocFd task file) s (fun _ _ => ¬s.NoRoom task)
      (fun stop t => t = s ∧ (s.NoRoom task ↔ ∃ error, stop = .error error)) := by
  -- `alloc_fd` gives an error exactly if there is no room.
  unfold Outcome.Ends allocFd
  cases present : s.fdTables.lookup task with
  | none => exact ⟨rfl, iff_of_true (fun table found => by rw [present] at found; cases found) ⟨_, rfl⟩⟩
  | some table =>
    have room : s.NoRoom task ↔ maxFdsPerTask ≤ table.files.entries.length := by
      unfold Vfs.NoRoom
      rw [present]
      simp
    rw [room]
    dsimp only
    unfold FdTable.allocFd
    by_cases full : maxFdsPerTask ≤ table.files.entries.length
    · rw [if_pos full]
      exact ⟨rfl, iff_of_true full ⟨_, rfl⟩⟩
    · rw [if_neg full]
      cases search table.files 128 table.nextFd with
      | none => exact ⟨rfl, by simp [full]⟩
      | some fd => exact full

theorem ends_close (task : TaskId) (fd : Fd) (s : Vfs) :
    Outcome.Ends (close task fd) s
      (fun _ t => ∃ table file, s.fdTables.lookup task = some table ∧ table.files.lookup fd = some file ∧
        t = Vfs.release { s with fdTables := s.fdTables.insert task { table
          with files := table.files.erase fd } } file)
      (fun _ t => t = s) := by
  unfold Outcome.Ends
  split
  next done =>
    unfold close at done
    cases present : s.fdTables.lookup task with
    | none => simp [present] at done
    | some table =>
      cases found : table.files.lookup fd with
      | none => simp [present, found] at done
      | some file =>
        simp only [present, found, EStateM.Result.ok.injEq, true_and] at done
        exact ⟨table, file, rfl, found, done.symm⟩
  next failed =>
    unfold close at failed
    split at failed
    next =>
      cases failed
      rfl
    next =>
      split at failed <;> cases failed
      rfl

theorem sysSocket_eq (task : TaskId) (s : Vfs) :
    sysSocket task s =
      match s.stack.bind NetworkStack.createTcpSocket with
      | none => .error (.error .invalidOperation) s
      | some (id, stack) =>
        allocFd task { fileType := .socket id, flags := { read := true, write := true } }
          { s with stack := some stack } :=
  rfl

end AllocFd

section Count

variable {s t : Vfs} {task : TaskId} {table : FdTable} (x : FileType)

theorem count_setTable (present : s.fdTables.lookup task = some table) (table' : FdTable) :
    Vfs.count { s with fdTables := s.fdTables.insert task table' }
      x + table.count x = table'.count x + s.count x :=
  Map.total_replace (FdTable.count x) present

theorem count_newTable (absent : s.fdTables.lookup task = none) (table : FdTable) :
    Vfs.count { s with fdTables := s.fdTables.insert task table } x = table.count x + s.count x :=
  Map.total_insert_new (FdTable.count x) absent

theorem count_dropTable (present : s.fdTables.lookup task = some table) :
    s.count x = table.count x + Vfs.count { s with fdTables := s.fdTables.erase task } x :=
  Map.total_remove (FdTable.count x) present

theorem count_congr (same : t.fdTables = s.fdTables) : t.count x = s.count x := by
  unfold Vfs.count
  rw [same]

theorem count_pos {fd : Fd} {file : OpenFile} (present : s.fdTables.lookup task = some table)
    (found : table.files.lookup fd = some file) : 0 < s.count file.fileType := by
  have one : 1 ≤ table.count file.fileType := by
    unfold FdTable.count
    simpa [refersTo] using @Map.le_total _ _ _ _ _ _ (refersTo file.fileType) found
  exact one.trans (@Map.le_total _ _ _ _ _ _ (FdTable.count file.fileType) present)

omit x in
theorem count_standard_pipe (id : PipeId) (isWrite : Bool) :
    FdTable.standard.count (.pipe id isWrite) = 0 := rfl

omit x in
theorem count_standard_socket (id : SocketId) : FdTable.standard.count (.socket id) = 0 := rfl

omit x in
/-- What a successful `alloc_fd` does: one more descriptor, and nothing else. -/
structure Allocates (file : OpenFile) (s t : Vfs) : Prop where
  counts : ∀ x, t.count x = refersTo x file + s.count x
  pipes : t.pipes = s.pipes
  nextPipeId : t.nextPipeId = s.nextPipeId
  credentials : t.credentials = s.credentials
  stack : t.stack = s.stack
  underflow : t.underflow = s.underflow

omit x in
theorem allocates {file : OpenFile} {fd : Fd} (done : allocFd task file s = .ok fd t) : Allocates file s t := by
  obtain ⟨table, table', present, free, files, rfl⟩ := allocFd_ok done
  refine ⟨fun x => ?_, rfl, rfl, rfl, rfl, rfl⟩
  have replaced := count_setTable x present table'
  have inserted : table'.count x = refersTo x file + table.count x := by
    unfold FdTable.count
    rw [files, Map.total_insert_new (refersTo x) free]
  omega

omit x in
/-- What the steps of `pipe` keep holds after it, whether it gets both descriptors or not. -/
theorem ends_pipe_of {P : Vfs → Prop} (same : P s) (begun : P { s with nextPipeId := s.nextPipeId + 1 })
    (opened : ∀ t, Allocates (.pipe s.nextPipeId false) { s with nextPipeId := s.nextPipeId + 1 } t → P t)
    (registered : ∀ t u, Allocates (.pipe s.nextPipeId false) { s with nextPipeId := s.nextPipeId + 1 } t →
      Allocates (.pipe s.nextPipeId true) t u → P (u.register s.nextPipeId)) :
    Outcome.Ends (pipe task) s (fun _ t => P t) (fun _ t => P t) := by
  unfold pipe
  rw [Outcome.ends_bind, Outcome.ends_get]
  split
  next => exact same
  next =>
    rw [Outcome.ends_bind]
    change Outcome.Ends _ { s with nextPipeId := s.nextPipeId + 1 } _ _
    refine Outcome.Ends.bind ((ends_allocFd ..).imp (fun _ _ done => allocates done) ?_) ?_
    · rintro _ _ rfl
      exact begun
    · intro readFd t first
      refine Outcome.Ends.bind ((ends_allocFd ..).imp (fun _ _ done => allocates done) ?_) ?_
      · rintro _ _ rfl
        exact opened _ first
      · intro writeFd u second
        exact registered t u first second

end Count

/-- What `release` and `retain` leave alone: they only touch pipes that exist, and sockets. -/
structure Settles (s t : Vfs) : Prop where
  fdTables : t.fdTables = s.fdTables
  nextPipeId : t.nextPipeId = s.nextPipeId
  credentials : t.credentials = s.credentials
  buffers : ∀ {id p}, t.pipes.lookup id = some p → ∃ q, s.pipes.lookup id = some q ∧ q.buf = p.buf

namespace Settles

variable {s t u : Vfs}

theorem refl (s : Vfs) : Settles s s := ⟨rfl, rfl, rfl, fun found => ⟨_, found, rfl⟩⟩

theorem trans (first : Settles s t) (second : Settles t u) : Settles s u where
  fdTables := second.fdTables.trans first.fdTables
  nextPipeId := second.nextPipeId.trans first.nextPipeId
  credentials := second.credentials.trans first.credentials
  buffers found := by
    obtain ⟨q, present, same⟩ := second.buffers found
    obtain ⟨r, before, same'⟩ := first.buffers present
    exact ⟨r, before, same'.trans same⟩

theorem absent (settles : Settles s t) {id : PipeId} (absent : s.pipes.lookup id = none) :
    t.pipes.lookup id = none := by
  cases found : t.pipes.lookup id with
  | none => rfl
  | some p =>
    obtain ⟨q, present, _⟩ := settles.buffers found
    simp [absent] at present

theorem count (settles : Settles s t) (x : FileType) : t.count x = s.count x := count_congr x settles.fdTables

theorem count_newTable (settles : Settles s t) {task : TaskId} (absent : s.fdTables.lookup task = none)
    (table : FdTable)
    (x : FileType) : Vfs.count { t with fdTables := t.fdTables.insert task table }
    x = table.count x + s.count x := by
  have still : t.fdTables.lookup task = none := by
    rw [settles.fdTables]
    exact absent
  rw [Fs.count_newTable x still, settles.count]

theorem foldl {f : Vfs → OpenFile → Vfs} (each : ∀ s file, Settles s (f s file)) (files : List OpenFile)
    (s : Vfs) :
    Settles s (files.foldl f s) := by
  induction files generalizing s with
  | nil => exact refl s
  | cons file rest ih => exact (each s file).trans (ih (f s file))

end Settles

theorem settles_pipe {s : Vfs} {id : PipeId} {p q : Pipe} (present : s.pipes.lookup id = some p)
    (buffer : p.buf = q.buf) (underflow : Bool) :
    Settles s { s with pipes := s.pipes.insert id q, underflow := underflow } ∧
      Settles s { s with pipes := s.pipes.erase id, underflow := underflow } := by
  -- The counts of one pipe change, or the pipe goes.
  constructor
  · refine ⟨rfl, rfl, rfl, fun {id' r} found => ?_⟩
    rw [Map.lookup_insert_eq] at found
    by_cases same : id' = id
    · subst same
      simp only [if_true, Option.some.injEq] at found
      subst found
      exact ⟨p, present, buffer⟩
    · simp only [same, if_false] at found
      exact ⟨r, found, rfl⟩
  · refine ⟨rfl, rfl, rfl, fun {id' r} found => ?_⟩
    rw [Map.lookup_erase_eq] at found
    split at found
    · cases found
    · exact ⟨r, found, rfl⟩

theorem settles_pipeDupEnd (s : Vfs) (id : PipeId) (w : Bool) : Settles s (s.pipeDupEnd id w) := by
  unfold Vfs.pipeDupEnd
  cases present : s.pipes.lookup id with
  | none => exact .refl s
  | some p => exact (settles_pipe present (by cases w <;> rfl) s.underflow).1

theorem settles_pipeCloseEnd (s : Vfs) (id : PipeId) (w : Bool) : Settles s (s.pipeCloseEnd id w) := by
  unfold Vfs.pipeCloseEnd
  cases present : s.pipes.lookup id with
  | none => exact .refl s
  | some p =>
    have each := @settles_pipe s id p (p.closeEnd w) present (by cases w <;> rfl) (s.underflow || p.ends w == 0)
    simp only
    split
    · exact each.2
    · exact each.1

theorem settles_release (s : Vfs) (file : OpenFile) : Settles s (s.release file) := by
  unfold Vfs.release
  split
  · exact settles_pipeCloseEnd ..
  · exact ⟨rfl, rfl, rfl, fun found => ⟨_, found, rfl⟩⟩
  · exact .refl s

theorem settles_retain (s : Vfs) (file : OpenFile) : Settles s (s.retain file) := by
  unfold Vfs.retain
  split
  · exact settles_pipeDupEnd ..
  · exact .refl s

/-- The number of descriptors for `x` in one task's table. -/
def Vfs.countOf (s : Vfs) (task : TaskId) (x : FileType) : Nat :=
  ((s.fdTables.lookup task).map (FdTable.count x)).getD 0

theorem count_cleanup (s : Vfs) (task : TaskId) (x : FileType) :
    s.count x = s.countOf task x + (s.cleanupTaskFds task).count x := by
  unfold Vfs.cleanupTaskFds Vfs.countOf
  cases present : s.fdTables.lookup task with
  | none => simp [Vfs.count]
  | some table =>
    have settled := Settles.foldl settles_release (Map.values table.files)
      { s with fdTables := s.fdTables.erase task }
    simp only [Option.map_some, Option.getD_some]
    rw [count_dropTable x present, ← settled.count x]
    rfl

end PickleOS.Fs
