import PickleOS.Fs.Paths
import PickleOS.NextFs.Runs

set_option autoImplicit false

/-!
# The buffer of `SYS_STAT`

The kernel fills it in one layout, libpickleos documents another one, by which the file manager reads it.
-/

namespace PickleOS.Syscall

open Shared NextFs Fs

def statFields (st : FileStat) : List (Nat × Nat) :=
  [(1, st.inodeType.toNat), (1, 0), (2, st.mode.toNat), (2, st.uid.toNat), (2, st.gid.toNat),
  (8, st.size.toNat), (4, st.mtime.toNat)]

/-- A buffer of 24 bytes after the call; the last four stay as they were. -/
def statOut (st : FileStat) (out : List UInt8) : List UInt8 := Bytes.splice out 0 (Bytes.pack (statFields st))

/-- The buffer after a call that returns zero. -/
def statInto (s : Files) (path : Name) (out : List UInt8) : Option (List UInt8) :=
  match Fs.stat path s with
  | .ok st _ => some (statOut st out)
  | .error _ _ => none

structure FileEntry where
  size : UInt64
  isDir : Bool
  deriving DecidableEq

/-- What `load_directory` makes of the buffer. -/
def loadEntry (statbuf : List UInt8) : FileEntry where
  size := UInt64.ofNat (Bytes.decode (Bytes.slice statbuf 0 8))
  isDir := statbuf.getD 8 0 ≠ 0

/-- The first eight bytes, in which libpickleos looks for the size. -/
def headWord (v : Inode) : Nat :=
  v.inodeType.toNat + 2 ^ 16 * v.mode.toNat + 2 ^ 32 * v.uid.toNat + 2 ^ 48 * v.gid.toNat

theorem stat_eq {s : Files} {volume : Volume} {path : Name} {inode : UInt32}
    {v : Inode} (mounted : s.mounted = some volume)
    (resolved : resolvePath path s = .ok inode s) (read : volume.readInode inode = .ok v)
    (used : v.isFree = false) :
    Fs.stat path s = .ok
      { inode := inode, inodeType := v.inodeType, mode := v.mode, uid := v.uid, gid := v.gid, size :=
        v.size, mtime := v.mtime } s := by
  have looked : volume.stat inode = .ok
      { inode := inode, inodeType := v.inodeType, mode := v.mode, uid := v.uid, gid := v.gid, size :=
        v.size, mtime := v.mtime } := by
    simp [Volume.stat, read, used, bind, Except.bind]
  simp [Fs.stat, bind, EStateM.bind, resolved, withFs, mounted, looked]

section Layout

variable (st : FileStat) {out : List UInt8}

theorem decode_head (room : out.length = 24) :
    Bytes.decode (Bytes.slice (statOut st out) 0 8) =
      st.inodeType.toNat + 2 ^ 16 * st.mode.toNat + 2 ^ 32 * st.uid.toNat + 2 ^ 48 * st.gid.toNat := by
  have part := Bytes.slice_splice_part out 0 0 8 (Bytes.pack (statFields st)) (by simp [statFields, room])
    (by simp [statFields])
  have head : Bytes.slice (Bytes.pack (statFields st)) 0 8 = Bytes.pack ((statFields st).take 5) := by
    have split : Bytes.pack (statFields st) = Bytes.pack ((statFields st).take 5) ++
      Bytes.pack ((statFields st).drop 5) := by
      rw [← Bytes.pack_append, List.take_append_drop]
    rw [split, Bytes.slice, List.drop_zero]
    exact List.take_left' (by simp [statFields])
  have type := st.inodeType.toNat_lt
  have mode := st.mode.toNat_lt
  have uid := st.uid.toNat_lt
  have gid := st.gid.toNat_lt
  rw [statOut, part, head]
  simp only [statFields, List.take, Bytes.pack, Bytes.decode_append, Bytes.decode_encode,
    Bytes.encode_length, Bytes.decode]
  omega

theorem getD_eight (room : out.length = 24) : (statOut st out).getD 8 0 = UInt8.ofNat st.size.toNat := by
  have written : (statOut st out)[8]? = (Bytes.pack (statFields st))[8]? := by
    rw [statOut, Bytes.getElem?_splice _ _ _ _ (by simp [statFields, room]), if_pos (by simp [statFields])]
  rw [List.getD_eq_getElem?_getD, written]
  rfl

end Layout

/-- The file manager gets the size and the kind of an object back if and only if the object is a
directory whose size happens to be the word of its type, mode and owner. -/
theorem stat_recovered_iff {s : Files} {volume : Volume} {path : Name} {inode : UInt32} {v : Inode}
    {out : List UInt8}
    (mounted : s.mounted = some volume) (resolved : resolvePath path s = .ok inode s)
    (read : volume.readInode inode = .ok v)
    (kind : v.isFile ∨ v.isDir) (room : out.length = 24) :
    (statInto s path out).map loadEntry = some { size := v.size, isDir := v.isDir } ↔ v.isDir ∧
      headWord v = v.size.toNat := by
  have type : v.inodeType = 1 ∨ v.inodeType = 2 := by simpa [Inode.isFile, Inode.isDir] using kind
  have used : v.isFree = false := by
    rcases type with type | type <;> simp [Inode.isFree, type]
  have small : headWord v < 2 ^ 64 := by
    have type := v.inodeType.toNat_lt
    have mode := v.mode.toNat_lt
    have uid := v.uid.toNat_lt
    have gid := v.gid.toNat_lt
    unfold headWord
    omega
  rw [statInto, stat_eq mounted resolved read used]
  simp only [Option.map_some, Option.some.injEq, loadEntry, decode_head _ room, getD_eight _ room,
    FileEntry.mk.injEq]
  have size : UInt64.ofNat (headWord v) = v.size ↔ headWord v = v.size.toNat := by
    rw [← UInt64.toNat_inj, UInt64.toNat_ofNat_of_lt' small]
  change UInt64.ofNat (headWord v) = v.size ∧ _ ↔ _
  rw [size, and_comm]
  refine and_congr_left fun same => ?_
  -- The low byte of the size is then the type, which is not zero: the file manager sees a directory.
  have low : UInt8.ofNat v.size.toNat = v.inodeType := by
    rw [← UInt8.toNat_inj, UInt8.toNat_ofNat', ← same]
    have type := v.inodeType.toNat_lt
    unfold headWord
    omega
  rcases type with type | type <;> simp [low, type, Inode.isDir]

def usedFiles : Files := { mounted := some usedVolume, vfs := .initial }

theorem stat_recovered_root : ∃ v, usedVolume.readInode 1 = .ok v ∧ v.isDir = true ∧ v.size = 256 ∧
    (statInto usedFiles [slash] (List.replicate 24 0)).map
      loadEntry = some { size := 32309250, isDir := false } ∧
    ¬(v.isDir ∧ headWord v = v.size.toNat) := by
  have decoded : (usedVolume.readInode 1).toOption.map (fun v => (v.isDir, v.size)) = some (true, 256) ∧
      (statInto usedFiles [slash] (List.replicate 24 0)).map
        loadEntry = some { size := 32309250, isDir := false } := by decide +kernel
  obtain ⟨root, shown⟩ := decoded
  cases read : usedVolume.readInode 1 with
  | error reason => simp [read, Except.toOption] at root
  | ok v =>
    simp only [read, Except.toOption, Option.map_some, Option.some.injEq, Prod.mk.injEq] at root
    obtain ⟨dir, size⟩ := root
    have meets : (statInto usedFiles [slash] (List.replicate 24 0)).map
      loadEntry = some { size := v.size, isDir := v.isDir } ↔
        v.isDir ∧ headWord v = v.size.toNat := stat_recovered_iff (s := usedFiles) rfl rfl read (.inr dir) rfl
    refine ⟨v, rfl, dir, size, shown, fun recovered => ?_⟩
    rw [← meets, shown, size] at recovered
    cases recovered

/-- The file `/a` of 5121 bytes is shown as a directory of 27525121 bytes. -/
theorem stat_file_lost :
    (usedVolume.readInode 2).toOption.map (fun v => (v.size, v.isFile)) = some (5121, true) ∧
      (statInto usedFiles [slash, 0x61] (List.replicate 24 0)).map
        loadEntry = some { size := 27525121, isDir := true } := by
  decide +kernel

end PickleOS.Syscall
