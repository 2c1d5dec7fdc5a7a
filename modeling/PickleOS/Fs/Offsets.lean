import PickleOS.Fs.Paths
import PickleOS.NextFs.FileBytes
import PickleOS.NextFs.Runs

set_option autoImplicit false

namespace PickleOS.Fs

open Shared Shared.Outcome NextFs

/-- The `u32` block index that the loops of a read and of a write compute for a file position. -/
def blockIndex (p : Nat) : Nat := p / blockSize % 2 ^ 32

/-- The positions that the block pointers of an inode reach. -/
def maxFileSize : Nat := (9 + 128) * 512

section Calls

variable (others : FileType → FilesM Nat) (now : UInt32) (task : TaskId) (fd : Fd)

/-- `write`. What it does on other kinds of files is left open. -/
def write (data : List UInt8) : FilesM Nat := do
  let (fileType, pos) ← beginWrite task fd
  match fileType with
  | .regular inode => writeRegular now task fd inode pos data
  | other => others other

/-- `read`; the bytes that it puts into the caller's buffer. -/
def read (others : FileType → FilesM (List UInt8)) (len : Nat) : FilesM (List UInt8) := do
  let (fileType, pos) ← beginRead task fd
  match fileType with
  | .regular inode => readRegular task fd inode pos len
  | other => others other

end Calls

section Open

variable {s t : Files} {task : TaskId} {fd : Fd} {file : OpenFile}

theorem getFile_eq (s : Files) (task : TaskId) (fd : Fd) :
    getFile task fd s =
      match s.vfs.fdTables.lookup task with
      | none => .error (.vfs (.error .invalidOperation)) s
      | some table =>
        match table.files.lookup fd with
        | none => .error (.vfs (.error .badFileDescriptor)) s
        | some file => .ok file s := by
  simp only [getFile, bind, EStateM.bind, get_apply]
  cases s.vfs.fdTables.lookup task with
  | none => rfl
  | some table => cases lookup : table.files.lookup fd <;> simp [lookup, fail] <;> rfl

theorem getFile_ok (found : getFile task fd s = .ok file t) :
    t = s ∧ ∃ table, s.vfs.fdTables.lookup task = some table ∧ table.files.lookup fd = some file := by
  rw [getFile_eq] at found
  split at found
  next => cases found
  next table here =>
    split at found
    next => cases found
    next other entry =>
      cases found
      exact ⟨rfl, table, here, entry⟩

theorem ends_getFile (found : getFile task fd s = .ok file s) :
    Ends (getFile task fd) s (fun value t => value = file ∧ t = s) (fun _ _ => False) := by
  simp [Ends, found]

theorem ends_setPos (found : getFile task fd s = .ok file s) (pos : UInt64) :
    Ends (setPos task fd pos) s
      (fun _ t => t.mounted = s.mounted ∧ getFile task fd t = .ok { file with pos := pos } t)
      (fun _ _ => False) := by
  obtain ⟨-, table, here, entry⟩ := getFile_ok found
  rw [setPos]
  refine (ends_getFile found).bind ?_
  rintro _ _ ⟨rfl, rfl⟩
  rw [ends_modify, here]
  refine ⟨rfl, ?_⟩
  rw [getFile_eq]
  simp only [Map.lookup_insert_eq, if_true]

theorem ends_seek (opened : getFile task fd s = .ok file s) (offset : Int64) (whence : SeekWhence) :
    Ends (seek task fd offset whence) s
      (fun pos t => t.mounted = s.mounted ∧ getFile task fd t = .ok { file with pos := pos } t)
      (fun _ _ => True) := by
  have size (inode : UInt32) :
      Ends (withFs fun fs => (fs.readInode inode).map (·.size)) s (fun _ t => t = s) fun _ _ => True := by
    simp only [Ends, withFs]
    split <;> rename_i result
    · split at result
      · cases result
      · split at result <;> cases result
        rfl
    · trivial
  have move (newPos : Int64) :
      Ends (if newPos < 0 then fail .invalidOperation else do
          setPos task fd newPos.toUInt64
          pure newPos.toUInt64) s
        (fun pos t => t.mounted = s.mounted ∧ getFile task fd t = .ok { file with pos := pos } t)
        (fun _ _ => True) := by
    split
    · trivial
    · exact Ends.bind ((ends_setPos opened _).imp (fun _ _ moved => moved) fun _ _ => False.elim)
        fun _ _ moved => moved
  rw [seek]
  refine (ends_getFile opened).of_never.bind ?_
  rintro _ _ ⟨rfl, rfl⟩
  split
  next inode _ =>
    refine (size inode).bind ?_
    rintro size _ rfl
    cases whence
    · exact move offset
    · exact move _
    · exact move _
  next => trivial

variable {volume : Volume} {inode : UInt32}

theorem writeRegular_error {now : UInt32} {pos : UInt64} {data : List UInt8} {reason : Fail} {volume' : Volume}
    (mounted : s.mounted = some volume) (failed :
      writeAt now inode pos.toNat data volume = .error reason volume') :
    writeRegular now task fd inode pos data s = .error (.ofFs reason) { s with mounted := some volume' } := by
  change (withFsMut (writeAt now inode pos.toNat data) >>= _) s = _
  simp only [bind, EStateM.bind, withFsMut, mounted, failed]

theorem readRegular_ok {pos : UInt64} {len : Nat} {bytes : List UInt8} (mounted : s.mounted = some volume)
    (done : readRegular task fd inode pos len s = .ok bytes t) :
      volume.readInodeData inode pos.toNat len = .ok bytes := by
  cases result : volume.readInodeData inode pos.toNat len with
  | error reason => simp [readRegular, bind, EStateM.bind, withFs, mounted, result] at done
  | ok bytes' =>
    simp only [readRegular, bind, EStateM.bind, withFs, mounted, result] at done
    split at done <;> cases done
    rfl

theorem write_regular (opened : getFile task fd s = .ok file s) (regular : file.fileType = .regular inode)
    (writable : file.flags.write = true) (others : FileType → FilesM Nat) (now : UInt32) (data : List UInt8) :
    write others now task fd data s = writeRegular now task fd inode file.pos data s := by
  simp only [write, beginWrite, bind, EStateM.bind, opened, writable, if_true, pure, EStateM.pure, regular]

theorem read_regular (opened : getFile task fd s = .ok file s) (regular : file.fileType = .regular inode)
    {others : FileType → FilesM (List UInt8)} {len : Nat} {bytes : List UInt8}
    (done : read task fd others len s = .ok bytes t) :
    readRegular task fd inode file.pos len s = .ok bytes t := by
  simp only [read, beginRead, bind, EStateM.bind, opened] at done
  cases readable : file.flags.read with
  | false => simp [readable, fail, throw_apply] at done
  | true => simpa only [readable, if_true, pure, EStateM.pure, regular] using done

/-- A range that ends beyond the largest file is refused, and no position of it stands for another one. -/
structure InPlace (s : Files) (volume : Volume) (task : TaskId) (fd : Fd) (inode : UInt32)
    (pos len : Nat) : Prop where
  write : ∀ others now data, data.length = len → ∃ t volume',
    Fs.write others now task fd data s = .error (.vfs (.error .noSpace)) t ∧
    t.mounted = some volume' ∧
    ∀ p, p < pos → volume'.byteAt (volume'.inode inode.toNat) p = volume.byteAt (volume.inode inode.toNat) p
  read : ∀ others bytes t, Fs.read task fd others len s = .ok bytes t →
    bytes = (List.range' pos bytes.length).map (volume.byteAt (volume.inode inode.toNat))
  index : ∀ p, pos ≤ p → p < pos + len → blockIndex p < 9 + 128 → blockIndex p = p / blockSize

/-- A position whose block index is below that of the last block although it is beyond the largest
file. -/
def Wraps (p : Nat) : Prop := maxFileSize ≤ p ∧ p % 2 ^ 41 < maxFileSize

theorem index_iff (p : Nat) : (blockIndex p < 9 + 128 → blockIndex p = p / blockSize) ↔ ¬Wraps p := by
  unfold blockIndex Wraps maxFileSize
  simp only [blockSize]
  omega

theorem in_place (opened : getFile task fd s = .ok file s) (mounted : s.mounted = some volume)
    (consistent : volume.Consistent)
    (regular : file.fileType = .regular inode) (writable : file.flags.write = true)
    (inside : volume.layout.InTable inode.toNat) (isFile : (volume.inode inode.toNat).isFile = true)
    {len : Nat} (some : 0 < len)
    (beyond : maxFileSize < file.pos.toNat + len)
    (straight : ∀ p, file.pos.toNat ≤ p → p < file.pos.toNat + len → ¬Wraps p) :
    InPlace s volume task fd inode file.pos.toNat len := by
  have working := consistent.owned.working (Synced.fileOccupied inside isFile)
  have first := straight file.pos.toNat le_rfl (by omega)
  simp only [Wraps, maxFileSize] at first straight beyond
  refine ⟨?_, ?_, fun p low high => (index_iff p).mpr (straight p low high)⟩
  · intro others now data size
    rw [write_regular opened regular writable]
    have ends := ends_storeAt consistent.layout now file.pos.toNat data inside isFile working
    cases result : writeAt now inode file.pos.toNat data volume with
    | ok n t =>
      obtain ⟨_, u, w, stored, _⟩ := ends.of_ok result
      have fits := stored.fits (by rintro rfl; simp at size; omega)
      omega
    | error reason volume' =>
      obtain ⟨⟨rfl, w, grown, _⟩, bytes⟩ := ends.of_error result
      refine ⟨_, volume', writeRegular_error mounted result, rfl, fun p below => ?_⟩
      rw [grown.inode consistent.layout inside.2]
      by_cases reached : p < file.pos.toNat % 2 ^ 41
      · exact bytes p reached
      · rw [byteAt_past (by omega), byteAt_past (by omega)]
  · intro others bytes t done
    have done := readRegular_ok mounted (read_regular opened regular done)
    simp only [Volume.readInodeData, readInode_ok consistent.layout inside, bind, Except.bind, isFile,
      Bool.not_true,
      Bool.false_eq_true, if_false] at done
    split at done
    next =>
      cases done
      rfl
    next within =>
      have whole := readChunks_ok working.placed done
      have length : bytes.length = min len ((volume.inode inode.toNat).size.toNat - file.pos.toNat) := by
        rw [whole, Volume.bytesFrom, List.length_map, List.length_range']
      rw [whole, Volume.bytesFrom, List.length_map, List.length_range']
      refine List.map_congr_left fun p member => ?_
      rw [List.mem_range'_1] at member
      have here := straight p member.1 (by omega)
      by_cases small : p < 2 ^ 41
      · rw [Nat.mod_eq_of_lt small]
      · rw [byteAt_past (by omega), byteAt_past (by omega)]

/-- Wherever `seek` has put the position of a file on a consistent volume, a range that ends beyond
the largest file is refused and aliases nothing, exactly if no position of it wraps. -/
theorem in_place_iff {s₀ : Files} {offset : Int64} {whence : SeekWhence}
    {pos : UInt64} (opened : getFile task fd s₀ = .ok file s₀)
    (sought : seek task fd offset whence s₀ = .ok pos s) (mounted : s₀.mounted = some volume)
    (consistent : volume.Consistent)
    (regular : file.fileType = .regular inode) (writable : file.flags.write = true)
    (inside : volume.layout.InTable inode.toNat) (isFile : (volume.inode inode.toNat).isFile = true)
    {len : Nat} (some : 0 < len)
    (beyond : maxFileSize < pos.toNat + len) :
    InPlace s volume task fd inode pos.toNat len ↔ ∀ p, pos.toNat ≤ p → p < pos.toNat + len → ¬Wraps p := by
  obtain ⟨same, moved⟩ := (ends_seek opened offset whence).of_ok sought
  constructor
  · intro place p low high
    exact (index_iff p).mp (place.index p low high)
  · intro straight
    exact in_place moved (same.trans mounted) consistent regular writable inside isFile some beyond straight

end Open

/-- The small volume, with the file `/a` of 5121 bytes open for reading and writing. -/
def openFiles : Files where
  mounted := some usedVolume
  vfs :=
    { Vfs.initial with
      fdTables := (∅ : Map TaskId FdTable).insert 1
        { FdTable.new with
          files := (∅ : Map Fd OpenFile).insert 3
            { fileType := .regular 2, flags := { read := true, write := true } } } }

theorem openFiles_opened :
    getFile 1 3 openFiles = .ok { fileType := .regular 2, flags := { read := true, write := true } }
      openFiles := by
  rw [getFile_eq]
  rfl

theorem in_place_end : ∃ s, InPlace s usedVolume 1 3 2 70143 2 := by
  have facts : (match seek 1 3 70143 .set openFiles with
    | .ok pos _ => some pos
    | .error _ _ => none) = some 70143 := by decide +kernel
  cases sought : seek 1 3 70143 .set openFiles with
  | error reason s => simp [sought] at facts
  | ok pos s =>
    simp only [sought, Option.some.injEq] at facts
    subst facts
    obtain ⟨inside, file, _⟩ := usedVolume_inodes
    refine ⟨s, (in_place_iff openFiles_opened sought rfl usedVolume_exact.synced.consistent rfl rfl inside
      file (by decide)
      (by decide)).mpr ?_⟩
    intro p low high
    simp only [Wraps, maxFileSize]
    have : (70143 : UInt64).toNat = 70143 := rfl
    omega

/-- A byte written at `2 ^ 41` becomes the first byte of the file. -/
theorem write_overwrites :
    ∃ s t volume', seek 1 3 2199023255552 .set openFiles = .ok 2199023255552 s ∧
      write (fun _ => fail .invalidOperation) 0 1 3 [7] s = .ok 1 t ∧ t.mounted = some volume' ∧
      usedVolume.byteAt (usedVolume.inode 2) 0 = 0 ∧ volume'.byteAt (volume'.inode 2) 0 = 7 ∧
      ¬InPlace s usedVolume 1 3 2 2199023255552 1 := by
  have facts : (match seek 1 3 2199023255552 .set openFiles with
    | .error _ _ => none
    | .ok pos s =>
      match write (fun _ => fail .invalidOperation) 0 1 3 [7] s with
      | .error _ _ => none
      | .ok n t =>
        t.mounted.map fun v => (pos, n, v.byteAt (v.inode 2) 0)) = some (2199023255552, 1, 7) := by
          decide +kernel
  cases sought : seek 1 3 2199023255552 .set openFiles with
  | error reason s => simp [sought] at facts
  | ok pos s =>
    cases written : write (fun _ => fail .invalidOperation) 0 1 3 [7] s with
    | error reason t => simp [sought, written] at facts
    | ok n t =>
      simp only [sought, written, Option.map_eq_some_iff, Prod.mk.injEq] at facts
      obtain ⟨volume', mounted, rfl, rfl, byte⟩ := facts
      obtain ⟨_, _, _, hole, _⟩ := usedVolume_inodes
      refine ⟨s, t, volume', rfl, written, mounted, byteAt_hole hole, byte, fun place => ?_⟩
      obtain ⟨_, _, refused, _⟩ := place.write (fun _ => fail .invalidOperation) 0 [7] rfl
      rw [written] at refused
      cases refused

end PickleOS.Fs
