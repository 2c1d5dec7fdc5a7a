import PickleOS.NextFs.Reclaim

set_option autoImplicit false

namespace PickleOS.NextFs

open Shared Shared.Outcome

/-- The device once the cached superblock and block bitmap are on it. -/
def Volume.flushed (s : Volume) : Device :=
  (s.device.overwrite 0 [s.sb.toBytes]).overwrite s.layout.bitmapStart
    ((List.range (bitmapBlocks s.layout.total)).map (blockOf s.blockBitmap))

section Flush

variable {s : Volume} (ok : s.layout.Ok)

include ok

theorem sync_eq : sync s = .ok () { s with device := s.flushed } := by
  have := ok.bitmap
  have := ok.table
  have := ok.data
  have := ok.room
  have := ok.device
  have whole : Ends sync s (fun _ t => t = { s with device := s.flushed }) fun _ _ => False := by
    rw [sync, ends_bind, ends_get]
    have first : (0 : Nat) + [s.sb.toBytes].length ≤ s.device.blockCount := by
      change 0 + 1 ≤ s.layout.blockCount
      omega
    have second : s.layout.bitmapStart +
        ((List.range (bitmapBlocks s.layout.total)).map (blockOf s.blockBitmap)).length ≤
          (s.device.overwrite 0 [s.sb.toBytes]).blockCount := by
      rw [List.length_map, List.length_range, Device.blockCount_overwrite]
      change s.layout.bitmapStart + _ ≤ s.layout.blockCount
      omega
    have flush := writeRun_eq second
    simp only [Layout.bitmapStart, Layout.total, Volume.layout] at flush
    simp only [bind, EStateM.bind, writeRun_eq first, flush, ends_modify]
    rfl
  obtain ⟨_, t, done, rfl⟩ := whole.ok_of_never
  exact done

theorem data_flushed {b : Nat} (past : s.layout.tableStart ≤ b) : s.flushed.data b = s.device.data b := by
  -- The inode table lies past the superblock and the bitmap.
  have := ok.bitmap
  have := ok.table
  rw [Volume.flushed, Device.data_overwrite_outside, Device.data_overwrite_outside]
  · simp only [List.length_singleton]
    omega
  · simp only [List.length_map, List.length_range]
    omega

omit ok in
theorem bitmap_flushed {i : Nat} (inside : i < bitmapBlocks s.layout.total) :
    s.flushed.data (s.layout.bitmapStart + i) = blockOf s.blockBitmap i := by
  rw [Volume.flushed, Device.data_overwrite_inside _ (Nat.le_add_right _ _) (by simpa using inside)]
  simp [List.getElem?_range inside]

omit ok in
theorem first_flushed (behind : 1 ≤ s.layout.bitmapStart) : s.flushed.data 0 = s.sb.toBytes := by
  rw [Volume.flushed, Device.data_overwrite_outside _ (by omega),
    Device.data_overwrite_inside _ le_rfl (by simp)]
  simp

theorem mount_flushed (small : s.layout.inodeCount + 7 < 2 ^ 32) :
    ∃ marks, s.flushed.mount = .ok { s.toNextFS with inodeBitmap := marks } ∧
      marks.length = s.inodeBitmap.length ∧
      ∀ k, Bitmap.test marks k = (decide (k < s.layout.inodeCount) && !(s.inode k).isFree) := by
  -- After a flush a mount finds the superblock and the block bitmap as they were cached, and an inode bitmap
  -- made from the inode types.
  have := ok.bitmap
  have := ok.table
  have := ok.data
  have := ok.room
  have := ok.device
  have length : s.blockBitmap.length = (s.layout.total + 7) / 8 := ok.bitmapLength
  have count : s.flushed.blockCount = s.layout.blockCount := rfl
  have first : Superblock.fromBytes (s.flushed.data 0) = s.sb := by
    rw [first_flushed ok.bitmap, Superblock.fromBytes_toBytes]
  obtain ⟨marks, done, size, tests⟩ := mount_eq s.flushed ok.sectors first ok.valid
    (by change s.layout.bitmapStart + bitmapBlocks s.layout.total ≤ _; omega)
    (by change s.layout.tableStart + (s.layout.inodeCount + 7) / 8 ≤ _; omega) (by omega) small
  refine ⟨marks, ?_, size.trans ok.inodeBitmapLength.symm, ?_⟩
  · have bytes : (List.range' s.sb.bitmapStart.toNat (bitmapBlocks s.sb.totalBlocks.toNat)).flatMap
        (fun b => (s.flushed.data b).bytes) =
          s.blockBitmap ++ List.replicate (bitmapBlocks s.layout.total * 512 - s.blockBitmap.length) 0 := by
      rw [← flatMap_blockOf _ _ (by rw [length]; exact le_bitmapBlocks _), List.range'_eq_map_range,
        List.flatMap_map]
      refine List.flatMap_congr fun i member => ?_
      exact congrArg Block.bytes (bitmap_flushed (List.mem_range.mp member))
    rw [done, bytes]
    congr 2
    rw [List.take_append_of_le_length (by rw [length]; exact le_rfl),
      List.take_of_length_le (by rw [length]; exact le_rfl)]
  · intro k
    rw [tests]
    refine congrArg₂ _ rfl ?_
    rw [Volume.inode, ← data_flushed ok (Nat.le_add_right _ _)]
    rfl

end Flush

theorem Synced.remount {s : Volume} (synced : Synced s) :
    ∃ t, sync s = .ok () t ∧ t.device.mount = .ok s.toNextFS := by
  -- A flushed and remounted volume is the one that was flushed.
  obtain ⟨marks, done, length, tests⟩ := mount_flushed synced.layout synced.small
  refine ⟨_, sync_eq synced.layout, ?_⟩
  have same : marks = s.inodeBitmap := by
    refine Bitmap.ext_test length fun k => ?_
    rw [tests, Bool.eq_iff_iff, Bool.and_eq_true, decide_eq_true_eq, ← Volume.marked, synced.marked,
      Volume.Occupied,
      Layout.InTable]
    by_cases zero : k = 0
    · subst zero
      simp [Inode.isFree, synced.reserved]
    · have positive : 0 < k := by omega
      simp [Inode.isFree, positive]
  rw [done, same]

/-- Calls that, if they fail, leave the inode bitmap and the inode types apart (a creation that got
an inode), or inodes and block bitmap apart (a `write_file` that has freed blocks). -/
def Op.Parts (s : Volume) : Op → Prop
  | createFile .. | createDir .. => s.nextInode.isSome = true
  | writeFile inodeNum _ => s.layout.InTable inodeNum.toNat ∧ (s.inode inodeNum.toNat).isFile = true ∧
      (s.inode inodeNum.toNat).freedBy s.device.data 0 ≠ []
  | _ => False

/-- One operation, with any outcome except the failure of a call that parts bitmap and disk. -/
inductive Proceeds (s t : Volume) : Prop
  | done (op : Op) (now : UInt32) (result : op.run now s = .ok () t)
  | failed (op : Op) (now : UInt32) (fail : Fail) (result : op.run now s = .error fail t) (whole : ¬op.Parts s)

namespace Synced

variable {s t : Volume}

theorem updateInode {inodeNum : UInt32} {change : Inode → Inode} (synced : Synced s)
    (direct : ∀ v, (change v).direct = v.direct) (indirect : ∀ v, (change v).indirect = v.indirect)
    (type : ∀ v, (change v).inodeType = v.inodeType) :
    Ends (NextFs.updateInode inodeNum change) s (fun _ t => Synced t) fun _ t => Synced t := by
  classical
  rw [NextFs.updateInode, ends_bind, ends_observe, readInode_eq synced.layout]
  by_cases inside : s.layout.InTable inodeNum.toNat
  · rw [if_pos inside]
    dsimp only
    split
    · exact synced
    next busy =>
      have here : s.Occupied inodeNum.toNat := by
        refine ⟨inside, fun free => busy ?_⟩
        simp [Inode.isFree, free]
      rw [ends_writeInode synced.layout inside]
      exact synced.store here (Grown.refl (fun _ => False) s _) (direct _) (indirect _) (type _)
  · rw [if_neg inside]
    exact synced

theorem chmod (synced : Synced s) (now inodeNum : UInt32) (mode : UInt16) :
    Ends (NextFs.chmod now inodeNum mode) s (fun _ t => Synced t) fun _ t => Synced t :=
  synced.updateInode (fun _ => rfl) (fun _ => rfl) fun _ => rfl

theorem chown (synced : Synced s) (now inodeNum : UInt32) (uid gid : UInt16) :
    Ends (NextFs.chown now inodeNum uid gid) s (fun _ t => Synced t) fun _ t => Synced t :=
  synced.updateInode (fun _ => rfl) (fun _ => rfl) fun _ => rfl

theorem ends_writeAt (synced : Synced s) (now inodeNum : UInt32) (offset : Nat) (data : List UInt8) :
    Ends (writeAt now inodeNum offset data) s (fun _ t => Synced t) fun _ t => Synced t := by
  -- A write to a file or a directory, complete or not.
  have occupied : s.layout.InTable inodeNum.toNat → (s.inode inodeNum.toNat).isFile = true ∨
      (s.inode inodeNum.toNat).isDir = true → s.Occupied inodeNum.toNat := fun inside writable =>
    writable.elim (Synced.fileOccupied inside) (Synced.dirOccupied inside)
  refine (NextFs.ends_writeAt synced.layout now inodeNum offset data fun inside writable =>
    synced.owned.working (occupied inside writable)).imp ?_ ?_
  · rintro _ t ⟨inside, writable, _, u, w, written, rfl⟩
    refine synced.store (occupied inside writable) written.grown rfl rfl ?_
    simp only [Inode.extended]
    rw [written.grown.rest]
  · rintro fail t ⟨_, ⟨_, rfl⟩ | ⟨inside, writable, _, w, grown, _⟩⟩
    · exact synced
    · exact synced.grown (occupied inside writable) grown

theorem writeFile {now inodeNum : UInt32} {data : List UInt8} (synced : Synced s)
    (done : NextFs.writeFile now inodeNum data s = .ok () t) : Synced t := by
  obtain ⟨here, _, u, w, written, rfl⟩ := synced.writeFile_ok done
  refine (synced.emptied here).store (by rwa [synced.occupied_emptied here]) written.grown rfl rfl ?_
  simp only [Inode.extended]
  rw [written.grown.rest]

theorem writeFile_error {now inodeNum : UInt32} {data : List UInt8} {fail : Fail} (synced : Synced s)
    (whole : ¬(Op.writeFile inodeNum data).Parts s)
    (failed : NextFs.writeFile now inodeNum data s = .error fail t) : Synced t := by
  -- A `write_file` that fails before anything was freed.
  obtain ⟨_, ⟨_, rfl⟩ | ⟨inside, file, _, w, grown, _⟩⟩ := (ends_writeFile synced.layout now inodeNum data
    fun inside file => synced.owned.working (Synced.fileOccupied inside file)).of_error failed
  · exact synced
  · have none : (s.inode inodeNum.toNat).freedBy s.device.data 0 = [] := by
      by_contra freed
      exact whole ⟨inside, file, freed⟩
    obtain ⟨direct, indirect⟩ := pointers_of_freedBy_nil none
    rw [none, Volume.release_nil] at grown
    exact synced.grown (Synced.fileOccupied inside file) (grown.of_pointers direct indirect)

theorem dirAddEntry_error {now dirInode : UInt32} {name : Name} {r : UInt32} {fail : Fail} (synced : Synced s)
    (failed : NextFs.dirAddEntry now dirInode name r s = .error fail t) : Synced t := by
  -- Adding an entry that fails for want of space.
  obtain ⟨_, ⟨_, rfl⟩ | ⟨appends, _, w, grown, _⟩⟩ :=
    NextFs.dirAddEntry_error synced.layout (synced.dirWorking dirInode) failed
  · exact synced
  · exact synced.grown (Synced.dirOccupied appends.1.inside appends.1.isDir) grown

theorem proceeds (synced : Synced s) (step : Proceeds s t) : Synced t := by
  cases step with
  | done op now result =>
    cases op with
    | createFile dirInode name =>
      obtain ⟨r, result⟩ := ok_of_dropped result
      exact Synced.kept.adds.createFile synced result
    | createDir parentInode name =>
      obtain ⟨r, result⟩ := ok_of_dropped result
      exact Synced.kept.adds.createDir synced result
    | write inodeNum offset data =>
      obtain ⟨n, result⟩ := ok_of_dropped result
      exact (synced.ends_writeAt now inodeNum offset.toNat data).of_ok result
    | writeFile inodeNum data => exact synced.writeFile result
    | unlink dirInode name => exact (Synced.kept.ends_unlink synced now dirInode name).of_ok result
    | rmdir parentInode name => exact (Synced.kept.ends_rmdir synced parentInode name).of_ok result
    | chmod inodeNum mode => exact (synced.chmod now inodeNum mode).of_ok result
    | chown inodeNum uid gid => exact (synced.chown now inodeNum uid gid).of_ok result
  | failed op now fail result whole =>
    cases op with
    | createFile dirInode name =>
      have full : s.nextInode = none := by simpa [Op.Parts] using whole
      obtain ⟨_, ⟨_, _, rfl⟩ | ⟨i, _, next, _⟩⟩ :=
        (ends_createFile synced.layout now dirInode name fun i next =>
        (synced.stageFile next now).dirWorking dirInode).of_error (error_of_dropped result)
      · exact synced
      · simp [full] at next
    | createDir parentInode name =>
      have full : s.nextInode = none := by simpa [Op.Parts] using whole
      obtain ⟨_, ⟨_, _, rfl⟩ | ⟨i, next, _⟩ | ⟨i, _, _, next, _⟩⟩ :=
        (ends_createDir synced.layout now parentInode name fun i b next found =>
          (synced.stageDir next found now parentInode).dirWorking parentInode).of_error
            (error_of_dropped result)
      · exact synced
      · simp [full] at next
      · simp [full] at next
    | write inodeNum offset data =>
      exact (synced.ends_writeAt now inodeNum offset.toNat data).of_error (error_of_dropped result)
    | writeFile inodeNum data => exact synced.writeFile_error whole result
    | unlink dirInode name =>
      obtain ⟨_, rfl | ⟨u, kept, rfl | ⟨r, done | ⟨reason, failed⟩⟩⟩⟩ :=
        (Synced.kept.ends_unlink synced now dirInode name).of_error result
      · exact synced
      · exact kept
      · exact Synced.kept.adds.dirAddEntry kept done
      · exact kept.dirAddEntry_error failed
    | rmdir parentInode name =>
      obtain ⟨_, rfl⟩ := (Synced.kept.ends_rmdir synced parentInode name).of_error result
      exact synced
    | chmod inodeNum mode => exact (synced.chmod now inodeNum mode).of_error result
    | chown inodeNum uid gid => exact (synced.chown now inodeNum uid gid).of_error result

end Synced

/-- In every run of operations, successful or not, in which no creation fails at a moment when an
inode is free and no `write_file` fails after it has freed blocks, a flush followed by a mount gives
back the cached state. -/
theorem sync_mount_same {device formatted : Device} {fs : NextFS} {s : Volume}
    (done : format device = .ok () formatted) (mounted : formatted.mount = .ok fs)
    (run : Relation.ReflTransGen Proceeds { fs with device := formatted } s) :
    ∃ t, sync s = .ok () t ∧ t.device.mount = .ok s.toNextFS := by
  have synced : Synced s := by
    induction run with
    | refl => exact (fresh_of_mount done mounted).synced
    | tail _ step ih => exact ih.proceeds step
  exact synced.remount

theorem sync_mount_same_small :
    ∃ (device formatted : Device) (fs : NextFS) (s : Volume), format device = .ok () formatted ∧
      formatted.mount = .ok fs ∧ Relation.ReflTransGen Proceeds { fs with device := formatted } s ∧
      ∃ t, sync s = .ok () t ∧ t.device.mount = .ok s.toNextFS := by
  obtain ⟨formatted, fs, done, mounted, made⟩ := freshVolume_some smallVolume_made
  have facts : succeeds ((Op.createFile 1 [0x61]).run 0) smallVolume = true ∧
      succeeds ((Op.write 2 70144 [1]).run 0) (final ((Op.createFile 1 [0x61]).run 0) smallVolume) = false := by
    decide +kernel
  obtain ⟨fail, failed⟩ := error_of_fails facts.2
  have run : Relation.ReflTransGen Proceeds smallVolume _ :=
    .tail (.single (.done (.createFile 1 [0x61]) 0 (ok_of_succeeds facts.1)))
      (.failed (.write 2 70144 [1]) 0 fail failed not_false)
  rw [made] at run
  exact ⟨_, formatted, fs, _, done, mounted, run, sync_mount_same done mounted run⟩

def Device.mountedInodes (device : Device) : Option (List UInt8) :=
  match device.mount with
  | .ok fs => some fs.inodeBitmap
  | .error _ => none

/-- A file is created under a name that exists. The call fails, but the inode it took is left on
disk as a file: the next mount counts it as in use. -/
theorem sync_mount_differs :
    ∃ (device formatted : Device) (fs : NextFS) (s t u : Volume) (op op' : Op) (fail : Fail),
      format device = .ok () formatted ∧ formatted.mount = .ok fs ∧
      op.run 0 { fs with device := formatted } = .ok () s ∧ op'.run 0 s = .error fail t ∧
      sync t = .ok () u ∧ u.device.mount ≠ .ok t.toNextFS := by
  obtain ⟨formatted, fs, done, mounted, made⟩ := freshVolume_some smallVolume_made
  have facts : succeeds ((Op.createFile 1 [0x61]).run 0) smallVolume = true ∧
      succeeds ((Op.createFile 1 [0x61]).run 0) (final ((Op.createFile 1 [0x61]).run 0) smallVolume) = false ∧
      succeeds sync (final ((Op.createFile 1 [0x61]).run 0)
        (final ((Op.createFile 1 [0x61]).run 0) smallVolume)) = true ∧
      (final sync (final ((Op.createFile 1 [0x61]).run 0)
          (final ((Op.createFile 1 [0x61]).run 0) smallVolume))).device.mountedInodes ≠
        some (final ((Op.createFile 1 [0x61]).run 0)
          (final ((Op.createFile 1 [0x61]).run 0) smallVolume)).inodeBitmap := by
    decide +kernel
  obtain ⟨fail, failed⟩ := error_of_fails facts.2.1
  refine ⟨_, formatted, fs, _, _, _, .createFile 1 [0x61], .createFile 1 [0x61], fail, done, mounted,
    made ▸ ok_of_succeeds facts.1, failed, ok_of_succeeds facts.2.2.1, ?_⟩
  intro same
  exact facts.2.2.2 (by rw [Device.mountedInodes, same])

end PickleOS.NextFs
