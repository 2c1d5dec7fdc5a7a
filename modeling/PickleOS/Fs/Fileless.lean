import PickleOS.Fs.Counts

set_option autoImplicit false

namespace PickleOS.Fs

open Shared Shared.Outcome

def FdTable.Fileless (table : FdTable) : Prop :=
  ∀ fd file, table.files.lookup fd = some file → ∀ inode, file.fileType ≠ .regular inode

def Vfs.Fileless (s : Vfs) (task : TaskId) : Prop :=
  ∀ table, s.fdTables.lookup task = some table → table.Fileless

namespace FdTable.Fileless

variable {table table' : FdTable}

theorem standard : FdTable.standard.Fileless := by
  intro fd file found inode
  simp only [FdTable.standard, Map.lookup_insert_eq] at found
  split at found
  · cases found
    nofun
  · split at found
    · cases found
      nofun
    · split at found
      · cases found
        nofun
      · simp at found

theorem insert (fileless : table.Fileless) {fd : Fd}
    {file : OpenFile} (other : ∀ inode, file.fileType ≠ .regular inode)
    (files : table'.files = table.files.insert fd file) : table'.Fileless := by
  intro fd' file' found
  rw [files, Map.lookup_insert_eq] at found
  split at found
  · cases found
    exact other
  · exact fileless fd' file' found

theorem erase (fileless : table.Fileless) (fd : Fd) :
    Fileless { table with files := table.files.erase fd } := by
  intro fd' file found
  simp only [Map.lookup_erase_eq] at found
  split at found
  · cases found
  · exact fileless fd' file found

end FdTable.Fileless

namespace Vfs.Fileless

variable {s t : Vfs} {task : TaskId}

theorem congr (fileless : s.Fileless task) (same : t.fdTables = s.fdTables) : t.Fileless task := by
  unfold Vfs.Fileless
  rw [same]
  exact fileless

theorem setTable (fileless : s.Fileless task) (owner : TaskId)
    {table : FdTable} (own : owner = task → table.Fileless) :
    Vfs.Fileless { s with fdTables := s.fdTables.insert owner table } task := by
  intro table' found
  rw [Map.lookup_insert_eq] at found
  split at found
  next same =>
    cases found
    exact own same.symm
  next => exact fileless table' found

theorem dropTable (fileless : s.Fileless task) (owner : TaskId) :
    Vfs.Fileless { s with fdTables := s.fdTables.erase owner } task := by
  intro table found
  rw [Map.lookup_erase_eq] at found
  split at found
  · cases found
  · exact fileless table found

theorem cleanup (fileless : s.Fileless task) (owner : TaskId) : (s.cleanupTaskFds owner).Fileless task := by
  unfold Vfs.cleanupTaskFds
  cases s.fdTables.lookup owner with
  | none => exact fileless.congr rfl
  | some table =>
    have settled := Settles.foldl settles_release (Map.values table.files)
      { s with fdTables := s.fdTables.erase owner }
    exact (fileless.dropTable owner).congr settled.fdTables

theorem clone (fileless : s.Fileless task) (child : TaskId) : (s.cloneTaskFds task child).Fileless task := by
  -- The child's key may be that of any task, its parent's included.
  unfold Vfs.cloneTaskFds
  cases present : s.fdTables.lookup task with
  | none => exact (fileless.setTable child fun _ => .standard).congr rfl
  | some table =>
    have settled := Settles.foldl settles_retain (Map.values table.files) s
    have retained : Vfs.Fileless ((Map.values table.files).foldl Vfs.retain s) task :=
      fileless.congr settled.fdTables
    exact (retained.setTable child fun _ => fileless table present).congr rfl

theorem allocFd (fileless : s.Fileless task) (owner : TaskId) (file : OpenFile)
    (other : ∀ inode, file.fileType ≠ .regular inode) :
    Ends (Fs.allocFd owner file) s (fun _ t => t.Fileless task) (fun _ t => t.Fileless task) := by
  refine (ends_allocFd owner file s).imp ?_ ?_
  · intro fd t done
    obtain ⟨table, table', present, _, files, rfl⟩ := allocFd_ok done
    refine fileless.setTable owner fun own => ?_
    exact FdTable.Fileless.insert (fileless table (own ▸ present)) other files
  · rintro _ _ rfl
    exact fileless

theorem pipe (fileless : s.Fileless task) (owner : TaskId) :
    Ends (Fs.pipe owner) s (fun _ t => t.Fileless task) (fun _ t => t.Fileless task) := by
  unfold Fs.pipe
  rw [ends_bind, ends_get]
  split
  · exact fileless
  · rw [ends_bind]
    change Ends _ { s with nextPipeId := s.nextPipeId + 1 } _ _
    have begun : Vfs.Fileless { s with nextPipeId := s.nextPipeId + 1 } task := fileless.congr rfl
    refine Ends.bind (begun.allocFd owner (.pipe _ false) nofun) fun readFd t opened => ?_
    refine Ends.bind (opened.allocFd owner (.pipe _ true) nofun) fun writeFd u both => ?_
    exact both.congr rfl

theorem close (fileless : s.Fileless task) (owner : TaskId) (fd : Fd) :
    Ends (Fs.close owner fd) s (fun _ t => t.Fileless task) (fun _ t => t.Fileless task) := by
  refine (ends_close owner fd s).imp ?_ ?_
  · rintro _ t ⟨table, file, present, _, rfl⟩
    refine (fileless.setTable owner fun own => ?_).congr (settles_release _ file).fdTables
    exact (fileless table (own ▸ present)).erase fd
  · rintro _ _ rfl
    exact fileless

theorem sysSocket (fileless : s.Fileless task) (owner : TaskId) :
    Ends (Fs.sysSocket owner) s (fun _ t => t.Fileless task) (fun _ t => t.Fileless task) := by
  unfold Ends
  rw [sysSocket_eq]
  cases s.stack.bind NetworkStack.createTcpSocket with
  | none => exact fileless
  | some created =>
    obtain ⟨id, stack⟩ := created
    have begun : Vfs.Fileless { s with stack := some stack } task := fileless.congr rfl
    exact begun.allocFd owner { fileType := .socket id, flags := { read := true, write := true } } nofun

theorem pipeRead (fileless : s.Fileless task) (id : PipeId) (len : Nat) :
    (Fs.pipeRead id len s).2.Fileless task := by
  refine fileless.congr ?_
  unfold Fs.pipeRead
  split
  · rfl
  · split
    · rfl
    · split <;> rfl

theorem pipeWrite (fileless : s.Fileless task) (id : PipeId) (rest : List UInt8) :
    (Fs.pipeWrite id rest s).2.Fileless task := by
  refine fileless.congr ?_
  unfold Fs.pipeWrite
  split
  · rfl
  · split
    · rfl
    · dsimp only
      split <;> rfl

theorem tcpBind (fileless : s.Fileless task) {id : SocketId}
    {port : UInt16} (bound : s.tcpBind id port = some t) : t.Fileless task := by
  unfold Vfs.tcpBind at bound
  obtain ⟨stack, _, bound⟩ := Option.bind_eq_some_iff.mp bound
  simp only [Option.ite_none_right_eq_some, Option.some.injEq] at bound
  exact fileless.congr (bound.2 ▸ rfl)

end Vfs.Fileless

end PickleOS.Fs
