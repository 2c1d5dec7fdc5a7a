import PickleOS.Fs.DirectoryEntries

set_option autoImplicit false

namespace PickleOS.Fs

open Shared Shared.Outcome NextFs

/-- A call does not remove the inode `i`. -/
def VfsCall.Spares (i : UInt32) (task : TaskId) (s : Files) (v : Volume) (call : VfsCall) : Prop :=
  ∀ path d, call.removes = some path → parentOf task path s = .ok (d, (splitPath path).2) s →
    v.dirLookup d (splitPath path).2 ≠ .ok i

/-- One orderly call that does not remove the inode `i`. -/
def SparingCall (i : UInt32) (s t : Files) : Prop :=
  ∃ (call : VfsCall) (now : UInt32) (task : TaskId) (v : Volume), s.mounted = some v ∧ call.Orderly task s v ∧
    call.Spares i task s v ∧ call.Steps now task s t

/-- The file `i` is in use. -/
def Files.Holds (i : UInt32) (t : Files) : Prop :=
  ∃ live w, t.mounted = some w ∧ NextFs.Standing live w ∧ live i.toNat

section

variable {live : Nat → Prop} {s t : Files} {v : Volume} {i : UInt32}

theorem SparingCall.holds (step : SparingCall i s t) (before : s.Holds i) : t.Holds i := by
  obtain ⟨live, w, mounted, standing, here⟩ := before
  obtain ⟨call, now, task, v, mounted', orderly, spares, steps⟩ := step
  cases mounted.symm.trans mounted'
  rcases steps_after mounted standing now orderly steps
    with ⟨x, after, keeps⟩ | ⟨_, _, _, x, _, after, _, adds, _⟩ |
    ⟨path, d, c, x, removes, after, found, loses, _⟩
  · exact ⟨live, x, after, keeps.standing, here⟩
  · exact ⟨_, x, after, adds.standing, Or.inr here⟩
  · refine ⟨_, x, after, loses.standing, ?_, here⟩
    intro same
    obtain rfl := UInt32.toNat_inj.mp same
    exact spares path d removes found loses.named

theorem holds_of_run (before : s.Holds i) (run : Relation.ReflTransGen (SparingCall i) s t) : t.Holds i := by
  induction run with
  | refl => exact before
  | tail _ step ih => exact step.holds ih

variable {task : TaskId} {fd : Fd} {file : OpenFile}

/-- A write through a descriptor of `i` leaves every other file and directory alone. -/
theorem ends_write_others (mounted : s.mounted = some v) (standing : NextFs.Standing live v)
    (opened : getFile task fd s = .ok file s) (regular : file.fileType = .regular i)
    (plain : (v.inode i.toNat).isDir = false)
    (others : FileType → FilesM Nat) (now : UInt32) (data : List UInt8) :
    Ends (write others now task fd data) s (fun _ t => ∃ x, t.mounted = some x ∧
    Undisturbed (fun j => live j ∧ j ≠ i.toNat) v x)
      (fun _ t => ∃ x, t.mounted = some x ∧ Undisturbed (fun j => live j ∧ j ≠ i.toNat) v x) := by
  rw [write, ends_bind, beginWrite, ends_bind]
  refine (ends_getFile opened).imp ?_ fun _ _ => False.elim
  rintro file _ ⟨rfl, rfl⟩
  split
  · rw [ends_pure]
    dsimp only
    rw [regular]
    have alone : ∀ t : Files, (∃ x, t.mounted = some x ∧ Altered live v x i.toNat) →
        ∃ x, t.mounted = some x ∧ Undisturbed (fun j => live j ∧ j ≠ i.toNat) v x := by
      rintro t ⟨x, after, altered⟩
      exact ⟨x, after, altered.others⟩
    exact (ends_writeRegular mounted standing now plain file.pos data).imp (fun _ => alone) fun _ => alone
  · exact ⟨v, mounted, Undisturbed.refl _ v⟩

/-- The descriptor `fd` is of the inode `i`. -/
def Files.OpenOn (i : UInt32) (task : TaskId) (fd : Fd) (t : Files) : Prop :=
  ∃ file, getFile task fd t = .ok file t ∧ file.fileType = .regular i

theorem ends_finishOpen_file (flags : OpenFlags) (i : UInt32) (s : Files) :
    Ends (finishOpen task flags i) s (fun fd t => t.mounted = s.mounted ∧ t.OpenOn i task fd)
      (fun _ _ => True) := by
  have alloc : ∀ file : OpenFile, file.fileType = .regular i → Ends (onVfs (allocFd task file)) s
      (fun fd t => t.mounted = s.mounted ∧ t.OpenOn i task fd) (fun _ _ => True) := by
    intro file regular
    rw [ends_onVfs_iff]
    refine (ends_allocFd task file s.vfs).imp ?_ fun _ _ _ => trivial
    intro fd u done
    obtain ⟨table, table', _, _, files, rfl⟩ := allocFd_ok done
    refine ⟨rfl, file, ?_, regular⟩
    rw [getFile_eq]
    simp only [Map.lookup_insert_eq, if_true, files]
  have last : Ends (openDescriptor task flags i) s (fun fd t => t.mounted = s.mounted ∧ t.OpenOn i task fd)
      (fun _ _ => True) := by
    unfold openDescriptor
    dsimp only
    split
    · refine ((ends_withFs_same s _).imp (fun _ _ => id) fun _ _ _ => trivial).bind ?_
      rintro pos _ rfl
      exact alloc _ rfl
    · exact alloc _ rfl
  unfold finishOpen
  rw [ends_bind, ends_credentials]
  split
  · refine ((ends_withFs_same s _).imp (fun _ _ => id) fun _ _ _ => trivial).bind ?_
    rintro _ _ rfl
    exact last
  · exact last

theorem ends_openFile_file (mounted : s.mounted = some v) (standing : NextFs.Standing live v)
    (now : UInt32) {path : Name}
    {flags : OpenFlags} (orderly : (VfsCall.openFile path flags).Orderly task s v) :
    Ends (openFile now task path flags) s
      (fun fd t => ∃ i, t.OpenOn i task fd ∧ t.Holds i) (fun _ _ => True) := by
  rw [openFile_eq]
  refine ((ends_openedInode_entries mounted standing now orderly).imp (fun _ _ => id) fun _ _ _ =>
    trivial).bind ?_
  intro i t entries
  have holds : t.Holds i := by
    rcases entries with ⟨⟨w, after, keeps⟩, here⟩ | ⟨d, w, _, _, rfl, _, adds, _⟩
    · exact ⟨live, w, after, keeps.standing, here⟩
    · exact ⟨_, w, rfl, adds.standing, Or.inl rfl⟩
  refine (ends_finishOpen_file flags i t).imp ?_ fun _ _ _ => trivial
  rintro fd u ⟨same, opened⟩
  obtain ⟨live', w, after, standing', here⟩ := holds
  exact ⟨i, opened, live', w, same.trans after, standing', here⟩

end

/-- While no call removes the inode that a descriptor was opened on, the inode number stays taken,
so that nothing new gets it; what is read through any descriptor of the inode is read from it, and
what is written leaves every other file and directory alone. -/
theorem descriptor_confined {live : Nat → Prop} {s s' : Files} {v : Volume} (mounted : s.mounted = some v)
    (standing : NextFs.Standing live v) {now : UInt32} {task : TaskId} {path : Name} {flags : OpenFlags}
    {fd : Fd}
    (orderly : (VfsCall.openFile path flags).Orderly task s v)
    (done : openFile now task path flags s = .ok fd s') :
    ∃ i file, getFile task fd s' = .ok file s' ∧ file.fileType = .regular i ∧
      ∀ t, Relation.ReflTransGen (SparingCall i) s' t → ∃ w, t.mounted = some w ∧ w.marked i.toNat = true ∧
        ∀ task' fd' file', getFile task' fd' t = .ok file' t → file'.fileType = .regular i →
          (∀ others len bytes u, read task' fd' others len t = .ok bytes u →
            w.readInodeData i file'.pos.toNat len = .ok bytes) ∧
          ∀ others now data, (w.inode i.toNat).isDir = false → ∃ x,
            (final (write others now task' fd' data) t).mounted = some x ∧
            ∀ (p : Name) (j : UInt32), resolvePath p t = .ok j t → j ≠ i →
              (∀ offset len, x.readInodeData j offset len = w.readInodeData j offset len) ∧
                x.dirList j = w.dirList j := by
  obtain ⟨i, ⟨file, opened, regular⟩, holds⟩ := (ends_openFile_file mounted standing now orderly).of_ok done
  refine ⟨i, file, opened, regular, fun t run => ?_⟩
  obtain ⟨live', w, after, standing', here⟩ := holds_of_run holds run
  refine ⟨w, after, standing'.housed.marked here, fun task' fd' file' opened' regular' => ⟨?_, ?_⟩⟩
  · intro others len bytes u result
    exact readRegular_ok after (read_regular opened' regular' result)
  · intro others now data plain
    obtain ⟨x, written, same⟩ :=
      (ends_write_others after standing' opened' regular' plain others now data).final
    refine ⟨x, written, fun p j found other => ?_⟩
    have kept := ((ends_resolvePath after standing' p).of_ok found).2
    have apart : live' j.toNat ∧ j.toNat ≠ i.toNat := ⟨kept, fun number => other (UInt32.toNat_inj.mp number)⟩
    have working := standing'.housed.working kept
    exact ⟨same.readInodeData apart working, same.dirList apart working⟩

/-- Root opens the file `/a`. -/
theorem descriptor_confined_root :
    ∃ fd s' i file w, openFile 0 1 [0x2F, 0x61] .rdonly superuser = .ok fd s' ∧ getFile 1 fd s' = .ok file s' ∧
      file.fileType = .regular i ∧ s'.mounted = some w ∧ w.marked i.toNat = true := by
  obtain ⟨fd, done⟩ := exists_ok_of_succeeds superuser_calls.2.1
  obtain ⟨i, file, opened, regular, each⟩ :=
    descriptor_confined (show superuser.mounted = some usedVolume from rfl)
    usedVolume_standing (by intro create; cases create) done
  obtain ⟨w, after, marked, _⟩ := each _ .refl
  exact ⟨fd, _, i, file, w, done, opened, regular, after, marked⟩

/-- The first two bytes of `/a` are zero. After `/a` was removed and `/c` created, the descriptor of
`/a` reads what was written to `/c`. -/
theorem old_descriptor_reads_new_file :
    returned (do
      let old ← openFile 0 1 [0x2F, 0x61] .rdonly
      read 1 old (fun _ => fail .invalidOperation) 2) superuser = some [0, 0] ∧
    returned (do
      let old ← openFile 0 1 [0x2F, 0x61] .rdonly
      unlink 0 1 [0x2F, 0x61]
      let new ← openFile 0 1 [0x2F, 0x63] { create := true, write := true }
      let _ ← write (fun _ => fail .invalidOperation) 0 1 new [7, 7]
      read 1 old (fun _ => fail .invalidOperation) 2) superuser = some [7, 7] := by
  decide +kernel

end PickleOS.Fs
