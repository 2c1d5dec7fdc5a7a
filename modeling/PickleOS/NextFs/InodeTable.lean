import Mathlib.Order.Interval.Set.Basic
import PickleOS.NextFs.Remount
import PickleOS.Shared.Checked

set_option autoImplicit false

namespace PickleOS.NextFs

open Shared Shared.Outcome

/-- The fields of an inode on disk start at these bytes. -/
example : Inode.widths.scanl (· + ·) 0 = [0, 1, 2, 4, 12, 14, 16, 20, 24, 28, 32, 36, 40, 44, 48, 52, 56,
    60, 61, 62, 63, 64] := by decide

theorem Block.slice_setInode (block : Block) {slot : Nat} {v : Inode} {before after : List (Nat × Nat)}
    {width n : Nat}
    (inside : slot < 8) (fields : v.fields = before ++ (width, n) :: after) :
    (block.setInode slot v).slice (slot * 64 + (before.map Prod.fst).sum) width = Bytes.encode width n := by
  have length := v.toBytes_length
  have record : v.toBytes = Bytes.pack (before ++ (width, n) :: after) := congrArg Bytes.pack fields
  have room : (before.map Prod.fst).sum + width ≤ v.toBytes.length := by
    rw [record, Bytes.pack_length, List.map_append, List.sum_append, List.map_cons, List.sum_cons]
    omega
  have part := Bytes.slice_splice_part block.bytes (slot * 64) _ width v.toBytes
    (by rw [block.length_eq, length]; simp only [blockSize]; omega) room
  rw [record, Bytes.slice_pack, ← record] at part
  exact part

namespace Volume

/-- Where `read_inode` and `write_inode` look for an inode. The sum is a `u32`. -/
def inodeBlock (s : Volume) (i : UInt32) : Nat := (s.sb.inodeTableStart + i / 8).toNat

def inodeTable (s : Volume) : Set Nat := { b | ∃ j, j < s.sb.inodeCount ∧ b = s.inodeBlock j }

def storeInode (s : Volume) (i : UInt32) (v : Inode) : Volume :=
  s.setBlock (s.inodeBlock i) ((s.device.data (s.inodeBlock i)).setInode (i % 8).toNat v)

variable {s : Volume} {i j : UInt32}

theorem index_eq (same : i / 8 = j / 8) : i = j ↔ (i % 8).toNat = (j % 8).toNat := by
  have quotient := congrArg UInt32.toNat same
  rw [← UInt32.toNat_inj, UInt32.toNat_mod, UInt32.toNat_mod]
  rw [UInt32.toNat_div, UInt32.toNat_div] at quotient
  change i.toNat / 8 = j.toNat / 8 at quotient
  change i.toNat = j.toNat ↔ i.toNat % 8 = j.toNat % 8
  omega

theorem slot_lt (i : UInt32) : (i % 8).toNat < 8 := by
  rw [UInt32.toNat_mod]
  exact Nat.mod_lt _ (by decide)

theorem record_storeInode (s : Volume) (i j : UInt32) (v : Inode) :
    ((s.storeInode i v).device.data (s.inodeBlock j)).inode (j % 8).toNat =
      if j = i then v else (s.device.data (s.inodeBlock j)).inode (j % 8).toNat := by
  rw [storeInode, data_setBlock, Function.update_apply]
  by_cases sameBlock : s.inodeBlock j = s.inodeBlock i
  · have quotient : j / 8 = i / 8 := (UInt32.add_right_inj _).mp (UInt32.toNat_inj.mp sameBlock)
    rw [if_pos sameBlock, Block.inode_setInode _ _ _ _ (slot_lt i), ← sameBlock]
    simp only [index_eq quotient]
  · have different : j ≠ i := fun same => sameBlock (same ▸ rfl)
    rw [if_neg sameBlock, if_neg different]

theorem accepted (s : Volume) {i : UInt32} (positive : 0 < i) (below : i < s.sb.inodeCount) :
    ¬(i = 0 ∨ i ≥ s.sb.inodeCount) := by
  rintro (rfl | high)
  · exact absurd positive (by decide)
  · exact UInt32.not_le.mpr below high

theorem readInode_at (s : Volume) (j : UInt32) (accepted : ¬(j = 0 ∨ j ≥ s.sb.inodeCount)) :
    s.readInode j =
      if s.inodeBlock j < s.device.blockCount then .ok ((s.device.data (s.inodeBlock j)).inode (j % 8).toNat)
      else .error (.fs (.blockError .outOfRange)) := by
  rw [readInode, if_neg accepted]
  change (s.device.read (s.inodeBlock j) >>= fun buf => .ok (buf.inode (j % 8).toNat)) = _
  rw [Device.read]
  split <;> rfl

theorem readInode_storeInode (s : Volume) {i j : UInt32} (v : Inode) (different : j ≠ i) :
    (s.storeInode i v).readInode j = s.readInode j := by
  by_cases accepted : j = 0 ∨ j ≥ s.sb.inodeCount
  · rw [readInode, readInode, if_pos accepted]
    exact if_pos accepted
  · have record := s.record_storeInode i j v
    rw [if_neg different] at record
    rw [s.readInode_at j accepted, ← record]
    exact (s.storeInode i v).readInode_at j accepted

/-- What it is that an inode was written, and nothing else. -/
structure Stored (s t : Volume) (i : UInt32) (v : Inode) : Prop where
  stored : t.readInode i = .ok v
  others : ∀ j, j ≠ i → t.readInode j = s.readInode j
  outside : ∀ b, b ∉ s.inodeTable → t.device.data b = s.device.data b
  packed : ∀ before width n after, v.fields = before ++ (width, n) :: after →
    (t.device.data (s.inodeBlock i)).slice ((i % 8).toNat * 64 + (before.map Prod.fst).sum)
    width = Bytes.encode width n
  cached : t.toNextFS = s.toNextFS

theorem stored_storeInode {i : UInt32} (v : Inode) (positive : 0 < i) (below : i < s.sb.inodeCount)
    (room : s.inodeBlock i < s.device.blockCount) : Stored s (s.storeInode i v) i v where
  stored := by
    have record := s.record_storeInode i i v
    rw [if_pos rfl] at record
    refine ((s.storeInode i v).readInode_at i (s.accepted positive below)).trans ?_
    exact (if_pos room).trans (congrArg _ record)
  others := fun j different => s.readInode_storeInode v different
  outside := by
    intro b outside
    exact Function.update_of_ne (fun same => outside ⟨i, below, same⟩) _ _
  packed := by
    intro before width n after fields
    rw [storeInode, data_setBlock, Function.update_self]
    exact Block.slice_setInode _ (slot_lt i) fields
  cached := rfl

theorem inodeTable_ordered (ok : s.layout.Ok) :
    s.inodeTable = Set.Ico s.layout.tableStart (s.layout.tableStart + (s.layout.inodeCount + 7) / 8) := by
  have data := ok.data
  have room := ok.room
  have total := s.layout.total_lt
  have address : ∀ j : UInt32, j < s.sb.inodeCount → s.inodeBlock j = s.layout.tableStart + j.toNat / 8 := by
    intro j below
    have inside : j.toNat < s.layout.inodeCount := below
    rw [inodeBlock, UInt32.toNat_add, UInt32.toNat_div]
    exact Nat.mod_eq_of_lt (by change s.layout.tableStart + j.toNat / 8 < _; omega)
  ext b
  constructor
  · rintro ⟨j, below, rfl⟩
    have inside : j.toNat < s.layout.inodeCount := below
    rw [address j below]
    exact ⟨Nat.le_add_right _ _, by omega⟩
  · rintro ⟨low, high⟩
    have inside : (b - s.layout.tableStart) * 8 < s.layout.inodeCount := by omega
    have small : (b - s.layout.tableStart) * 8 < 2 ^ 32 := inside.trans s.layout.inodeCount_lt
    have below : UInt32.ofNat ((b - s.layout.tableStart) * 8) < s.sb.inodeCount := by
      rw [UInt32.lt_iff_toNat_lt, UInt32.toNat_ofNat_of_lt' small]
      exact inside
    refine ⟨_, below, ?_⟩
    rw [address _ below, UInt32.toNat_ofNat_of_lt' small]
    omega

end Volume

theorem writeInode_at {s : Volume} {i : UInt32} (v : Inode) (positive : 0 < i) (below : i < s.sb.inodeCount) :
    Ends (writeInode i v) s (fun _ t => s.inodeBlock i < s.device.blockCount ∧ t = s.storeInode i v)
      fun fail t => s.device.blockCount ≤ s.inodeBlock i ∧ fail = .fs (.blockError .outOfRange) ∧ t = s := by
  simp only [writeInode, ends_bind, ends_get, if_neg (s.accepted positive below), writeInodeRaw,
    readBlock, ends_observe]
  by_cases room : s.inodeBlock i < s.device.blockCount
  · have address : (s.sb.inodeTableStart + i / 8).toNat < s.device.blockCount := room
    rw [Device.read_ok address]
    exact (ends_writeBlock address _ _ _).mpr ⟨room, rfl⟩
  · rw [Device.read, if_neg (show ¬(s.sb.inodeTableStart + i / 8).toNat < s.device.blockCount from room)]
    exact ⟨not_lt.mp room, rfl, trivial⟩

theorem writeRun_done (lba : Nat) (blocks : List Block) (device : Device) :
    Ends (writeRun lba blocks) device (fun _ last => last = device.overwrite lba blocks) fun _ _ => True := by
  induction blocks generalizing lba device with
  | nil => exact (device.overwrite_nil lba).symm
  | cons block rest ih =>
    rw [writeRun, ends_bind, ends_get, ends_bind, ends_observe]
    by_cases room : lba < device.blockCount
    · rw [Device.write_ok block room, ← Device.overwrite_cons]
      exact ih (lba + 1) _
    · rw [Device.write, if_neg room]
      trivial

theorem sync_done (s : Volume) : Ends sync s (fun _ t => t = { s with device := s.flushed }) fun _ _ =>
    True := by
  have flush : Ends (do
      writeRun 0 [s.sb.toBytes]
      writeRun s.sb.bitmapStart.toNat ((List.range (bitmapBlocks s.sb.totalBlocks.toNat)).map
        (blockOf s.blockBitmap)))
      s.device (fun _ last => last = s.flushed) fun _ _ => True := by
    refine Ends.bind (writeRun_done _ _ _) ?_
    rintro _ _ rfl
    exact writeRun_done _ _ _
  rw [sync, ends_bind, ends_get]
  unfold Ends at flush
  dsimp only
  split
  next device done =>
    rw [done] at flush
    exact congrArg _ flush
  next => trivial

theorem mount_first {device : Device} {fs : NextFS} (mounted : device.mount = .ok fs) :
    fs.sb = Superblock.fromBytes (device.data 0) := by
  unfold Device.mount at mounted
  split at mounted
  next => cases mounted
  next =>
    obtain ⟨block, got, mounted⟩ := Checked.bind_ok mounted
    have first : block = device.data 0 := by
      unfold Device.read at got
      split at got
      next => exact (Except.ok.inj got).symm
      next => cases got
    dsimp only at mounted
    split at mounted
    next => cases mounted
    next =>
      obtain ⟨_, _, mounted⟩ := Checked.bind_ok mounted
      obtain ⟨_, _, mounted⟩ := Checked.bind_ok mounted
      cases mounted
      rw [first]

theorem mount_flushed_some {s : Volume} (ok : s.layout.Ok) : ∃ fs, s.flushed.mount = .ok fs := by
  by_cases small : s.layout.inodeCount + 7 < 2 ^ 32
  · obtain ⟨marks, mounted, _⟩ := mount_flushed ok small
    exact ⟨_, mounted⟩
  · have := ok.table
    have := ok.data
    have := ok.room
    have := ok.device
    have count := s.layout.inodeCount_lt
    -- The number of blocks of the inode table wraps to zero, and none of them is read.
    have blocks : ((s.sb.inodeCount + 7) / 8).toNat = 0 := by
      rw [UInt32.toNat_div, UInt32.toNat_add]
      change (s.layout.inodeCount + 7) % 2 ^ 32 / 8 = 0
      omega
    have first : Superblock.fromBytes (s.flushed.data 0) = s.sb := by
      rw [first_flushed ok.bitmap, Superblock.fromBytes_toBytes]
    have positive : 0 < s.flushed.blockCount := by change 0 < s.layout.blockCount; omega
    have bitmap : s.sb.bitmapStart.toNat + bitmapBlocks s.sb.totalBlocks.toNat ≤ s.flushed.blockCount := by
      change s.layout.bitmapStart + bitmapBlocks s.layout.total ≤ s.layout.blockCount
      omega
    have scanned (bits : List UInt8) : s.flushed.markTable s.sb.inodeTableStart.toNat s.sb.inodeCount.toNat 0
        ((s.sb.inodeCount + 7) / 8).toNat bits = .ok bits := by
      rw [blocks]
      rfl
    exact ⟨_, mount_scanned ok.sectors first ok.valid bitmap positive (scanned _)⟩

/-- An inode is written to its own record, every other record stays as it is, and no block outside
the inode table is touched; where the table is not on the device the call fails and changes nothing.
What a superblock, an inode or a directory entry is stored as reads back as the same, and after a
flush a mount finds the cached superblock. -/
theorem inode_table_kept :
    (∀ (s : Volume) (i : UInt32) (v : Inode), 0 < i → i < s.sb.inodeCount →
      Ends (writeInode i v) s (fun _ t => s.inodeBlock i < s.device.blockCount ∧ Volume.Stored s t i v)
        fun fail t => s.device.blockCount ≤ s.inodeBlock i ∧ fail = .fs (.blockError .outOfRange) ∧ t = s) ∧
    (∀ s : Volume, s.layout.Ok →
      s.inodeTable = Set.Ico s.layout.tableStart (s.layout.tableStart + (s.layout.inodeCount + 7) / 8) ∧
        ∀ i, i < s.sb.inodeCount → s.inodeBlock i < s.device.blockCount) ∧
    (∀ sb : Superblock, Superblock.fromBytes sb.toBytes = sb) ∧
    (∀ v : Inode, Inode.fromBytes v.toBytes = v) ∧
    (∀ entry : DirEntry, DirEntry.fromBytes entry.toBytes = entry) ∧
    (∀ (s t : Volume) (fs : NextFS), s.sb.bitmapStart ≠ 0 → sync s = .ok () t → t.device.mount = .ok fs →
      fs.sb = s.sb) ∧
    ∀ s : Volume, s.layout.Ok → ∃ t fs, sync s = .ok () t ∧ t.device.mount = .ok fs ∧ fs.sb = s.sb := by
  have exchanged : ∀ (s t : Volume) (fs : NextFS), s.sb.bitmapStart ≠ 0 → sync s = .ok () t →
      t.device.mount = .ok fs → fs.sb = s.sb := by
    intro s t fs behind done mounted
    have last := (sync_done s).of_ok done
    have positive : 1 ≤ s.layout.bitmapStart := Nat.pos_of_ne_zero fun zero => behind (UInt32.toNat_inj.mp zero)
    subst last
    rw [mount_first mounted, first_flushed positive, Superblock.fromBytes_toBytes]
  refine ⟨?_, ?_, Superblock.fromBytes_toBytes, Inode.fromBytes_toBytes, DirEntry.fromBytes_toBytes,
    exchanged, ?_⟩
  · intro s i v positive below
    refine (writeInode_at v positive below).imp ?_ fun _ _ failed => failed
    rintro _ _ ⟨room, rfl⟩
    exact ⟨room, s.stored_storeInode v positive below room⟩
  · intro s ok
    have table := Volume.inodeTable_ordered ok
    refine ⟨table, fun i below => ?_⟩
    have inside : s.inodeBlock i ∈ s.inodeTable := ⟨i, below, rfl⟩
    rw [table] at inside
    exact inside.2.trans_le ((ok.data.trans ok.room.le).trans ok.device)
  · intro s ok
    obtain ⟨fs, mounted⟩ := mount_flushed_some ok
    have behind : s.sb.bitmapStart ≠ 0 := fun zero => absurd ok.bitmap (by
      change ¬1 ≤ s.sb.bitmapStart.toNat
      rw [zero]
      decide)
    exact ⟨_, fs, sync_eq ok, mounted, exchanged s _ fs behind (sync_eq ok) mounted⟩

end PickleOS.NextFs
